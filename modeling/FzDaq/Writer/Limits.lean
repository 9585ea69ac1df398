import FzDaq.Writer.Rotation

/-!
# The limits that `main` sets

The limits of a file and of a directory are given in MBytes. Their products with 1000000 are
`uint32_t`, so the test that one is greater than the other is made on other numbers than
those that the writer gets.
-/

namespace FzDaq.Writer

open FzDaq.Machine FzDaq.RunControl

/-- The limits of a file and of a directory; `none` if `main` exits. -/
def limits (esize dsize : UInt32) : Option (UInt64 × UInt64) :=
  if dsize > esize then some ((esize * 1000000).toUInt64, (dsize * 1000000).toUInt64) else none

namespace Books

open FzWriter

variable {b : Books} {ops : List Op} {esize dsize : UInt32} {F D : UInt64}

theorem Right.step (h : b.Right) {op : Op}
    (hkept : ∀ message disk, op = .receive message disk → b.Kept message disk) :
    (b.step op).Right := by
  cases op with
  | setRcstate s disk => exact step_setRcstate_right h s disk
  | setStore value =>
    exact ⟨h.esize, h.dsize, h.file, h.dir, h.nested, h.closedFiles, h.closedDirs⟩
  | receive message disk => exact h.receive (hkept message disk rfl)

theorem Right.run (h : b.Right) (hkept : AtMessages Kept b ops) :
    (ops.foldl Books.step b).Right := by
  induction ops generalizing b with
  | nil => exact h
  | cons op ops ih =>
    refine ih (h.step fun message disk hop => ?_) hkept.2
    subst hop
    exact hkept.1

theorem run_limits (b : Books) (ops : List Op) :
    (ops.foldl step b).writer.eventFileSize = b.writer.eventFileSize ∧
      (ops.foldl step b).writer.eventDirSize = b.writer.eventDirSize := by
  induction ops generalizing b with
  | nil => exact ⟨rfl, rfl⟩
  | cons op ops ih =>
    obtain ⟨hfile, hdir⟩ := step_limits b op
    exact ⟨(ih (b.step op)).1.trans hfile, (ih (b.step op)).2.trans hdir⟩

theorem start_sizes (bdir run : String) (id : UInt32) (unset : Unset) (disk : Disk) :
    (start bdir run id unset disk F D).writer.esize = unset.esize ∧
      (start bdir run id unset disk F D).writer.dsize = unset.dsize ∧
      (start bdir run id unset disk F D).writer.eventFileSize = F ∧
      (start bdir run id unset disk F D).writer.eventDirSize = D ∧
      (start bdir run id unset disk F D).writer.store = true :=
  ⟨rfl, rfl, rfl, rfl, rfl⟩

theorem right_start (bdir run : String) (id : UInt32) {unset : Unset}
    (hunset : unset.esize = 0 ∧ unset.dsize = 0) (disk : Disk) :
    (start bdir run id unset disk F D).Right := by
  obtain ⟨hesize, hdsize, -⟩ := start_sizes (F := F) (D := D) bdir run id unset disk
  rw [hunset.1] at hesize
  rw [hunset.2] at hdsize
  rw [right_iff, hesize, hdsize]
  exact ⟨rfl, rfl, Filing.within_empty _ _⟩

/-- The first message closes a directory alone if it is longer than the limit. -/
theorem step_first (hstore : b.writer.store = true) (hfiling : b.filing = {})
    (hdsize : b.writer.dsize = 0) {message : List UInt8} {disk : Disk}
    (hkept : b.Kept message disk) (hlong : b.writer.eventDirSize.toNat < message.length) :
    [message.length] ∈ (b.step (.receive message disk)).filing.closedBoxes := by
  have hcut : b.writer.cut message.length = .box := by
    have hsize := hkept.toNat_size
    rw [cut_box_iff, hdsize, UInt64.zero_add, UInt64.lt_iff_toNat_lt, hsize]
    exact hlong
  have hstores := hkept.1 hstore
  change [message.length] ∈ (b.filed (.receive message disk)).closedBoxes
  unfold filed
  dsimp only
  rw [if_pos hstore, if_pos hstores, hcut, hfiling]
  exact List.mem_singleton_self _

/-- Every file and every directory that is closed for its limit holds more than it was
configured to hold, unless the limit of the directory is 4295 MBytes or more: behind that the
product wraps, and a directory is closed on fewer bytes. -/
theorem limits_kept_iff (bdir run : String) (id : UInt32) {unset : Unset}
    (hunset : unset.esize = 0 ∧ unset.dsize = 0) {disk : Disk} (hdisk : Works disk)
    (hconf : limits esize dsize = some (F, D)) :
    (∀ ops, AtMessages Kept (start bdir run id unset disk F D) ops →
      let b := ops.foldl step (start bdir run id unset disk F D)
      (∀ file ∈ b.filing.closedSheets, esize.toNat * 1000000 < file.sum) ∧
        ∀ dir ∈ b.filing.closedBoxes, dsize.toNat * 1000000 < dir.sum) ↔
      dsize.toNat < 4295 := by
  have haccepted : esize < dsize ∧ F = (esize * 1000000).toUInt64 ∧
      D = (dsize * 1000000).toUInt64 := by
    unfold limits at hconf
    split at hconf
    · rename_i hless
      obtain ⟨rfl, rfl⟩ := Prod.ext_iff.1 (Option.some.inj hconf)
      exact ⟨hless, rfl, rfl⟩
    · contradiction
  obtain ⟨hless, hF, hD⟩ := haccepted
  have hFn : F.toNat = esize.toNat * 1000000 % 2 ^ 32 := by
    rw [hF, UInt32.toNat_toUInt64, UInt32.toNat_mul]
    rfl
  have hDn : D.toNat = dsize.toNat * 1000000 % 2 ^ 32 := by
    rw [hD, UInt32.toNat_toUInt64, UInt32.toNat_mul]
    rfl
  obtain ⟨-, hdsize, -, hlimit, hstore⟩ :=
    start_sizes (F := F) (D := D) bdir run id unset disk
  constructor
  · intro hall
    by_contra hwraps
    obtain ⟨message, hlen⟩ : ∃ message : List UInt8, message.length = D.toNat + 1 :=
      ⟨List.replicate (D.toNat + 1) 0, List.length_replicate⟩
    have hready := ready_create bdir run id unset hdisk
    have hopen : (start bdir run id unset disk F D).writer.Ready := ⟨hready.good, hready.file⟩
    have hkept : (start bdir run id unset disk F D).Kept message disk := by
      refine ⟨fun _ => hopen.storesIn hdisk hstore, ?_⟩
      rw [hlimit, hlen]
      omega
    have hclosed := step_first hstore rfl (hdsize.trans hunset.2) hkept
      (by rw [hlimit, hlen]; omega)
    have hbig := (hall [.receive message disk] ⟨hkept, trivial⟩).2 _ hclosed
    rw [List.sum_singleton, hlen] at hbig
    omega
  · intro hsmall ops hkept
    have hright := (right_start (F := F) (D := D) bdir run id hunset disk).run hkept
    obtain ⟨hfile, hdir⟩ := run_limits (start bdir run id unset disk F D) ops
    obtain ⟨-, -, hF', hD', -⟩ := start_sizes (F := F) (D := D) bdir run id unset disk
    have hlt : esize.toNat < dsize.toNat := UInt32.lt_iff_toNat_lt.1 hless
    refine ⟨fun file hmem => ?_, fun dir hmem => ?_⟩
    · have hsum := (hright.closedFiles file hmem).1
      rw [hfile, hF', hFn] at hsum
      omega
    · have hsum := (hright.closedDirs dir hmem).1
      rw [hdir, hD', hDn] at hsum
      omega

/-- `limits_kept_iff` for a directory of 4295 MBytes: it is closed on less than 33 kBytes. -/
theorem wrapped_not_kept : (limits 10 4295).map Prod.snd = some 32704 ∧
    ¬∀ ops, AtMessages Kept (start "data" "run" 0 {} {} 10000000 32704) ops →
      let b := ops.foldl step (start "data" "run" 0 {} {} 10000000 32704)
      (∀ file ∈ b.filing.closedSheets, (10 : UInt32).toNat * 1000000 < file.sum) ∧
        ∀ dir ∈ b.filing.closedBoxes, (4295 : UInt32).toNat * 1000000 < dir.sum := by
  have hiff :=
    @limits_kept_iff 10 4295 10000000 32704 "data" "run" 0 {} ⟨rfl, rfl⟩ {} ⟨rfl, rfl⟩ rfl
  exact ⟨rfl, fun hkept => absurd (hiff.1 hkept) (by decide)⟩

end Books

end FzDaq.Writer
