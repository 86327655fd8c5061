import Aesd.Server.Answering

/-!
# The build with a regular file

Without `USE_AESD_CHAR_DEVICE` the server appends to `/var/tmp/aesdsocketdata`.
The file is the records one after the other, and every answer is the whole file.
-/
namespace Aesd.Server

open PartialRun

/-- An appending write goes to the end, and a read stops there. -/
def regularFile : Backing (List UInt8) where
  truncate _ := []
  write b p := some (b ++ p)
  read b pos n := ((b.drop pos.toNat).take n, pos + ((b.drop pos.toNat).take n).length, b)
  ioctl _ _ _ _ := none

/-- The file is what has been recorded. -/
def fileAccount : Account .file regularFile where
  Shows b h := b = h.flatten
  Admits _ _ := True
  visible h := h.flatten
  start _ := 0
  truncated _ _ := rfl
  written hshows _ _ hwrite := by
    cases hshows
    cases hwrite
    exact ⟨by simp, rfl⟩
  sought _ _ hb := nomatch hb
  readOut {b b' h n l q} hshows _ hread := by
    cases hshows
    cases hread
    refine ⟨rfl, by simp, List.take_prefix _ _, fun hnil => ?_⟩
    simpa [fileBufSize] using hnil

/-- What the file and the clients hold after a run. -/
structure OnFile (tr : List Event) (w : World (Disk (List UInt8))) : Prop where
  stored : w.main ≠ .clear → w.os.store = (packets tr).flatten ∨
    w.mutex ≠ none ∧ w.os.store = (packets tr).dropLast.flatten
  recorded : Recorded tr w
  answered : Answered List.flatten tr w

/-- Whatever was in the file before: in every state of every run in which no call fails, the file
is the records in the order of the mutex, and every answer is the file up to its own record. -/
theorem file_holds_records (d : Disk (List UInt8)) (tr : List Event) (w : World (Disk (List UInt8)))
    (h : run (World.step .file (storage regularFile)) (World.start .file d) tr = some w) :
    OnFile tr w := by
  have hrecorded := recorded_of_run h fun tid => run_project_succeeds h tid
  rcases run_going fileAccount nofun h (fun _ _ _ _ => trivial) with ⟨-, rfl, rfl⟩ | hg
  · refine ⟨fun hclear => absurd rfl hclear, hrecorded, fun _ => rfl, fun i S p S' hsplit => ?_⟩
    simp [sections] at hsplit
  · exact ⟨fun _ => hg.shown, hrecorded, hg.answered⟩

theorem regularFile_bounded : regularFile.Bounded := by
  rintro b pos n l q b' hread
  cases hread
  exact List.length_take_le _ _

/-- A section is blocked by no answer, and the holder unlocks before it has made two calls for every
byte of the file and eight more. -/
theorem file_answering {d : Disk (List UInt8)} {tr : List Event} {w : World (Disk (List UInt8))}
    (h : run (World.step .file (storage regularFile)) (World.start .file d) tr = some w) {tid : Tid}
    (hm : w.mutex = some tid) : Answering fileAccount tr w tid :=
  run_answering fileAccount regularFile_bounded nofun h (fun _ _ _ _ => trivial) hm

/-- Two clients and a timestamp, on top of an older file. -/
theorem file_holds_served : ∃ w,
    run (World.step .file (storage regularFile)) (World.start .file ⟨[111, 108, 100], fun _ => none⟩)
      inTurn = some w ∧ OnFile inTurn w := by
  obtain ⟨w, hw⟩ := Option.isSome_iff_exists.mp (show
    (run (World.step .file (storage regularFile))
      (World.start .file ⟨[111, 108, 100], fun _ => none⟩) inTurn).isSome = true by decide +kernel)
  exact ⟨w, hw, file_holds_records _ inTurn w hw⟩

end Aesd.Server
