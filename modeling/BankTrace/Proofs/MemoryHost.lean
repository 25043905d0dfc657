import BankTrace.MemoryHost
import BankTrace.Proofs.FileTree.Created
import BankTrace.Proofs.World

/-!
# Files in memory

What is written to a file in memory is there at once and as a whole, and is read by the path the
file was made at.
-/

namespace BankTrace.MemoryHost

open World (run)

theorem run_offer (number : Nat) (bytes : ByteArray) (host : MemoryHost) :
    run (Sink.offer (m := StateM MemoryHost) (FileSink.mk (OpenFile.file number)) bytes) host =
      ((.ok (), .empty, ⟨.file number⟩),
        { host with tree := host.tree.changeFile number (· ++ bytes) }) := by
  by_cases hsize : bytes.size = 0
  · obtain rfl := ByteArray.size_eq_zero_iff.mp hsize
    rw [Sink.offer, World.run_offerWithin_empty, FileTree.changeFile_append_empty]
  · exact World.run_offer_whole hsize rfl

theorem run_offer_full {bytes : ByteArray} (hne : bytes ≠ .empty) (host : MemoryHost) :
    ∃ e, run (Sink.offer (m := StateM MemoryHost) (FileSink.mk OpenFile.full) bytes) host =
      ((.error e, bytes, ⟨.full⟩), host) := by
  have hsize := mt ByteArray.size_eq_zero_iff.mp hne
  obtain ⟨size, hsucc⟩ := Nat.exists_eq_succ_of_ne_zero hsize
  unfold Sink.offer
  rw [hsucc]
  exact World.run_offerWithin_refused size hsize rfl (.inr ⟨.noSpace, rfl⟩)

theorem run_writeWhole {host : MemoryHost} {p : Path} {number : Nat} {tree : FileTree}
    (h : host.tree.create host.here p = .ok (.file number, tree)) (bytes : ByteArray) :
    ∃ written, run (Host.writeWhole (m := StateM MemoryHost) p bytes) host =
        (.ok (), { host with tree := written }) ∧
      written.read host.here p = .ok bytes := by
  refine ⟨tree.changeFile number (· ++ bytes), ?_, ?_⟩
  · have hcreate : run (Host.createFile (m := StateM MemoryHost) p) host =
        (.ok (.file number), { host with tree }) := by
      change create p host = _
      rw [create, h]
    unfold Host.writeWhole
    rw [World.run_bind, hcreate]
    dsimp only
    rw [World.run_bind, run_offer]
    rfl
  · rw [FileTree.read_of_create h, ByteArray.empty_append]

/-- Only where a file is made for them can bytes be written. -/
theorem create_of_run_writeWhole {host host' : MemoryHost} {p : Path} {bytes : ByteArray}
    (hne : bytes ≠ .empty)
    (h : run (Host.writeWhole (m := StateM MemoryHost) p bytes) host = (.ok (), host')) :
    ∃ number tree, host.tree.create host.here p = .ok (.file number, tree) := by
  unfold Host.writeWhole at h
  rw [World.run_bind] at h
  have hrun : run (Host.createFile (m := StateM MemoryHost) p) host = create p host := rfl
  rw [hrun, create] at h
  cases hcreate : host.tree.create host.here p with
  | error e => simp [hcreate] at h
  | ok made =>
      obtain ⟨file, tree⟩ := made
      cases file with
      | file number => exact ⟨number, tree, rfl⟩
      | full =>
          obtain ⟨e, hoffer⟩ := run_offer_full hne { host with tree }
          rw [hcreate] at h
          dsimp only at h
          rw [World.run_bind, hoffer] at h
          simp at h

end BankTrace.MemoryHost
