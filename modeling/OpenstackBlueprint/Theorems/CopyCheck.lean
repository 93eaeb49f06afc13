import OpenstackBlueprint.Migrate.Inventory
import OpenstackBlueprint.Migrate.Trace

/-!
# What a copy that passes the comparison may lack

`prepare` deletes the StatefulSet once the inventories of the source and of the
claim agree. A filesystem may have a `lost+found` of its own, so one more entry
on the claim is let through; whether it is there is not looked at but inferred
from the counts. So an own `lost+found` makes up for an entry that was not
copied, and without one an extra entry passes for it (`misread_iff`).
-/

namespace OpenstackBlueprint.Theorems.CopyCheck

open Migrate Kit Kit.Script

/-- `lost+found` -/
def lostFoundName : Bytes := [108, 111, 115, 116, 43, 102, 111, 117, 110, 100]

/-- Where the helper pods mount the source and the claim. -/
def srcDir : Bytes := [47, 115, 114, 99]
def dstDir : Bytes := [47, 100, 115, 116]

/-- What is on a claim after the copy, and whether its filesystem came with a
`lost+found` directory of its own. -/
structure ClaimFs where
  tree : List FsEntry
  ownLostFound : Bool
  present : ownLostFound = true → ∃ children, FsEntry.dir lostFoundName children ∈ tree

namespace ClaimFs

/-- One for an own `lost+found`. -/
def own (claim : ClaimFs) : Nat := if claim.ownLostFound then 1 else 0

/-- The entries other than the filesystem's own `lost+found`. -/
def entries (claim : ClaimFs) : Nat := (pathsIn dstDir claim.tree).length - claim.own

end ClaimFs

/-- The entries of the source. -/
def sourceEntries (source : List FsEntry) : Nat := (pathsIn srcDir source).length

/-- The comparison of the two inventories passes. -/
def Passes (source : List FsEntry) (claim : ClaimFs) : Prop :=
  ∃ src dst files bytes t,
    parseInventory (inventoryLog "src." srcDir source) "src." = some src ∧
    parseInventory (inventoryLog "dst." dstDir claim.tree) "dst." = some dst ∧
    src.get? "files" = some files ∧ src.get? "bytes" = some bytes ∧
    Runs (compareInventories src dst files bytes) (.ok ()) t

/-- As many entries as the source has, own `lost+found` apart, and as many
bytes. -/
def Complete (source : List FsEntry) (claim : ClaimFs) : Prop :=
  claim.entries = sourceEntries source ∧ bytesIn claim.tree = bytesIn source

/-- The bytes agree and the listings have equally many lines, or the claim's one
more, and that is not the line of an own `lost+found`. -/
def Misread (source : List FsEntry) (claim : ClaimFs) : Prop :=
  bytesIn claim.tree = bytesIn source ∧ ∃ line : Nat, line ≤ 1 ∧
    (pathsIn dstDir claim.tree).length + newlines dstDir claim.tree =
      sourceEntries source + newlines srcDir source + line ∧
    line + newlines srcDir source ≠ claim.own + newlines dstDir claim.tree

section Check

variable {source : List FsEntry} {claim : ClaimFs}

/-- An own `lost+found` is one of the entries. -/
theorem own_le (claim : ClaimFs) : claim.own ≤ (pathsIn dstDir claim.tree).length := by
  unfold ClaimFs.own
  split
  · rename_i hown
    obtain ⟨children, hmem⟩ := claim.present hown
    have hpath := paths_subset hmem (dstDir ++ slash :: lostFoundName)
      (by unfold FsEntry.paths; exact List.mem_cons_self)
    exact List.length_pos_of_mem hpath
  · exact Nat.zero_le _

/-- The counts agree up to one line, and the bytes agree. -/
theorem passes_iff : Passes source claim ↔
    (wcLines (find dstDir claim.tree) = wcLines (find srcDir source) ∨
      wcLines (find dstDir claim.tree) = wcLines (find srcDir source) + 1) ∧
    bytesIn claim.tree = bytesIn source := by
  obtain ⟨src, hsrc, hsrcFiles, hsrcBytes⟩ :=
    @parseInventory_inventoryLog "src." (by simp [isLineBreak]) srcDir source
  obtain ⟨dst, hdst, hdstFiles, hdstBytes⟩ :=
    @parseInventory_inventoryLog "dst." (by simp [isLineBreak]) dstDir claim.tree
  constructor
  · rintro ⟨src', dst', files, bytes, t, hsrc', hdst', hfiles, hbytes, hrun⟩
    -- the numbers compared are the ones the scripts printed
    obtain rfl := Option.some.inj (hsrc.symm.trans hsrc')
    obtain rfl := Option.some.inj (hdst.symm.trans hdst')
    obtain ⟨dstFiles, hdstFiles', hdstBytes', hsame⟩ := compareInventories_ok hrun
    obtain rfl := Option.some.inj (hsrcFiles.symm.trans hfiles)
    obtain rfl := Option.some.inj (hsrcBytes.symm.trans hbytes)
    obtain rfl := Option.some.inj (hdstFiles.symm.trans hdstFiles')
    have hsameBytes := Option.some.inj (hdstBytes.symm.trans hdstBytes')
    unfold lostFound at hsame
    refine ⟨?_, by omega⟩
    split at hsame
    · right
      omega
    · left
      omega
  · rintro ⟨hfiles, hbytes⟩
    have hsame : (wcLines (find dstDir claim.tree) : Int) -
        lostFound (wcLines (find dstDir claim.tree)) (wcLines (find srcDir source)) =
          wcLines (find srcDir source) := by
      unfold lostFound
      split
      · rename_i hone
        rw [beq_iff_eq] at hone
        omega
      · rename_i hone
        rw [beq_iff_eq] at hone
        omega
    rw [hbytes] at hdstBytes
    obtain ⟨t, ht⟩ := compareInventories_passes hdstFiles hdstBytes hsame ⟨[], []⟩
    exact ⟨src, dst, _, _, t, hsrc, hdst, hsrcFiles, hsrcBytes, _, _, ht⟩

end Check

/-- A copy that passes the comparison is complete exactly when its listing is
not misread. -/
theorem passing_copy_complete_iff (source : List FsEntry) (claim : ClaimFs) :
    (Passes source claim → Complete source claim) ↔ ¬ Misread source claim := by
  have hown := own_le claim
  have hsrc := wcLines_find srcDir source
  have hdst := wcLines_find dstDir claim.tree
  rw [passes_iff]
  unfold Complete Misread ClaimFs.entries sourceEntries
  constructor
  · rintro h ⟨hbytes, line, hle, hlines, hne⟩
    obtain ⟨hentries, _⟩ := h ⟨by omega, hbytes⟩
    omega
  · rintro h ⟨hlines, hbytes⟩
    refine ⟨?_, hbytes⟩
    by_contra hne
    -- no line is taken for `lost+found`, or one is
    rcases hlines with hlines | hlines
    · exact h ⟨hbytes, 0, by omega, by omega, by omega⟩
    · exact h ⟨hbytes, 1, by omega, by omega, by omega⟩

/-- Where no name holds a newline, an own `lost+found` hides one missing entry,
and without one an extra entry is taken for it. -/
theorem misread_iff {source : List FsEntry} {claim : ClaimFs}
    (hsource : newlines srcDir source = 0) (hclaim : newlines dstDir claim.tree = 0) :
    Misread source claim ↔ bytesIn claim.tree = bytesIn source ∧
      claim.entries + 2 * claim.own = sourceEntries source + 1 := by
  have hown := own_le claim
  have hbit : claim.own ≤ 1 := by
    unfold ClaimFs.own
    split <;> omega
  unfold Misread ClaimFs.entries
  rw [hsource, hclaim]
  refine and_congr_right fun _ => ⟨?_, fun h => ⟨1 - claim.own, by omega, by omega, by omega⟩⟩
  rintro ⟨line, hle, hlines, hne⟩
  omega

/-- `grastate.dat` -/
def grastate : Bytes := [103, 114, 97, 115, 116, 97, 116, 101, 46, 100, 97, 116]

/-- `grastate.dat` and an empty directory `ib`. -/
def mariadbSource : List FsEntry :=
  [.file grastate 104, .dir [105, 98] []]

/-- `grastate.dat` alone, on a filesystem with its own `lost+found`. -/
def partialClaim : ClaimFs where
  tree := [.dir lostFoundName [], .file grastate 104]
  ownLostFound := true
  present := fun _ => ⟨[], List.mem_cons_self⟩

/-- The comparison passes and a directory is missing. -/
theorem partial_copy_passes :
    Passes mariadbSource partialClaim ∧ ¬ Complete mariadbSource partialClaim := by
  refine ⟨passes_iff.mpr ⟨.inl rfl, rfl⟩, fun h => ?_⟩
  exact absurd h.1 (by decide)

end OpenstackBlueprint.Theorems.CopyCheck
