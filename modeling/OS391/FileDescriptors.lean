import OS391.Openings

/-! The descriptors of regular files. What a `read` yields is settled by the file and by the
byte counts of the reads before it on the same descriptor, whatever else is going on. -/

namespace OS391
open Library Library.Runs Library.Bytes

/-- The result of a read of `n` bytes, and the bytes it stores, after reads of these counts
from a file that has just been opened. -/
def FileSys.readAfter (fs : FileSys) (inode : Nat) (counts : List Int) (n : Int) :
    Int × List UInt8 :=
  fs.readData inode (Kernel.position fs inode counts) (n % word32).toNat

namespace Kernel

variable {L : Layout} {fs : FileSys} {s s' : Kernel} {h : Openings}

/-- The routine of a regular file, on a descriptor that follows its opening. -/
theorem Follows.readF {o : Opening} {f : FileDesc} (hf : Follows fs o f)
    (himg : s.fs.image = fs.image) (hreg : o.entry.ftype = 2) {mem : List UInt8} {nbytes : Int}
    {r : Tty.ReadOut} (hr : s.readHandler f mem nbytes = some (r, s')) :
    (r.ret, r.out) = fs.readAfter o.entry.inode (o.reads.map Access.nbytes) nbytes := by
  obtain ⟨hread, hinode, hpos⟩ := hf.regular hreg
  rw [readHandler, hread] at hr
  dsimp only at hr
  split at hr
  · cases hr
  · cases hr
    rw [FileSys.readData_image himg, hinode, hpos, FileSys.readAfter]

/-- **Regular files do not interfere.** In any run of any operations of any processes, a
successful `read` on a descriptor whose last opening was of a regular file yields what that
file and the byte counts of the reads since then make of it. -/
theorem regular_read_settled {ops : List Op}
    (hrun : run (track L) (boot L fs, .none) ops = some (s, h))
    {fd nbytes : Int} {buf : Option (List UInt8)} {r : Tty.ReadOut}
    (hread : s.read fd buf nbytes = some (r, s')) (hret : 0 ≤ r.ret)
    {o : Opening} {os : List Opening} (hlast : h s.curr fd.toNat = o :: os)
    (hreg : o.entry.ftype = 2) :
    (r.ret, r.out) = fs.readAfter o.entry.inode (o.reads.map Access.nbytes) nbytes := by
  have ha : Accounted fs s h := accounted_run hrun
  rcases read_cases hread with ⟨-, rfl, -⟩ | ⟨hreads, mem, r₁, s₁, hr₁, hcase⟩
  · exact absurd hret (by decide)
  have hf := ha.last_read hreads hlast
  rcases hcase with ⟨-, rfl, -⟩ | ⟨-, rfl, -⟩
  · dsimp only at hret
    omega
  · exact hf.readF ha.image hreg hr₁

/-- Two descriptors of one file, read in turn. -/
theorem regular_read_settled_twice : ∃ s h r s',
    run (track someLayout) (boot someLayout .shellOnly, .none)
      [.boot .zero, .openFile shell, .openFile shell,
        .read 2 (some (List.replicate 8 0)) 2, .read 3 (some (List.replicate 8 0)) 8] =
      some (s, h) ∧
    s.read 2 (some (List.replicate 8 0)) 2 = some (r, s') ∧
    (r.ret, r.out) = FileSys.shellOnly.readAfter 1 [2] 2 := by
  obtain ⟨⟨s, h⟩, hrun, hacc, hread⟩ := exists_of_map_decide
    (fun x : Kernel × Openings =>
      (x.2 x.1.curr 2).map (fun o => (o.entry.ftype, o.entry.inode, o.reads.map Access.nbytes)) =
          [(2, 1, [2])] ∧
        (x.1.read 2 (some (List.replicate 8 0)) 2).map (fun r => decide (r.1.ret = 2)) = some true)
    (x := run (track someLayout) (boot someLayout .shellOnly, .none)
      [.boot .zero, .openFile shell, .openFile shell,
        .read 2 (some (List.replicate 8 0)) 2, .read 3 (some (List.replicate 8 0)) 8])
    (by decide +kernel)
  obtain ⟨⟨r, s'⟩, hr, hret⟩ := exists_of_map_decide (fun r : Tty.ReadOut × Kernel => r.1.ret = 2)
    hread
  obtain ⟨o, os, hos, ho, -⟩ := List.map_eq_cons_iff.mp hacc
  simp only [Prod.mk.injEq] at ho
  obtain ⟨hreg, hinode, hcounts⟩ := ho
  have hnneg : 0 ≤ r.ret := by
    dsimp only at hret
    omega
  have hsettled := regular_read_settled hrun hr hnneg hos hreg
  rw [hinode, hcounts] at hsettled
  exact ⟨s, h, r, s', hrun, hr, hsettled⟩

end Kernel

end OS391
