import FzDaq.Writer.Directories

/-!
# The ids of run directories

The first id of a process is one more than the configured one and than every number
that is read from the name of a directory of the same tag. Whether a name is used
again is a matter of what the pattern of `sscanf` reads from it.
-/

namespace FzDaq.Writer

open FzDaq.Machine FzDaq.RunControl

/-! ## The scan at start-up -/

/-- The number that the scan reads from an entry. -/
structure Dirent.Shows (entry : Dirent) (runtag : String) (m : Int32) : Prop where
  isDir : entry.isDir = true
  tag : runtag.toList <:+: entry.dName.toList
  number : scanRunid entry.dName = some m

namespace FzWriter

variable {w : FzWriter} {disk : Disk} {base tag : String} {id : UInt32} {op : Op} {ops : List Op}

theorem scanEntry_le {acc : Int32 × Int32} (hacc : acc.1.toInt ≤ acc.2.toInt) (entry : Dirent) :
    (scanEntry tag acc entry).1.toInt ≤ (scanEntry tag acc entry).2.toInt := by
  unfold scanEntry
  split
  · dsimp only
    split
    · exact Int.le_refl _
    · rename_i hnot
      rw [gt_iff_lt, Int32.lt_iff_toInt_lt] at hnot
      exact Int.not_lt.1 hnot
  · exact hacc

theorem le_scanEntry_iff {acc : Int32 × Int32} (hacc : acc.1.toInt ≤ acc.2.toInt) (entry : Dirent)
    (n : Int) : n ≤ (scanEntry tag acc entry).2.toInt ↔
      n ≤ acc.2.toInt ∨ ∃ m, entry.Shows tag m ∧ n ≤ m.toInt := by
  unfold scanEntry
  split
  · rename_i hentry
    rw [Bool.and_eq_true, decide_eq_true_eq] at hentry
    have hshows : (∃ m, entry.Shows tag m ∧ n ≤ m.toInt) ↔
        ∃ m, scanRunid entry.dName = some m ∧ n ≤ m.toInt :=
      ⟨fun ⟨m, hm, hn⟩ => ⟨m, hm.number, hn⟩, fun ⟨m, hm, hn⟩ => ⟨m, ⟨hentry.1, hentry.2, hm⟩, hn⟩⟩
    rw [hshows]
    cases hscan : scanRunid entry.dName with
    | none =>
      have hsame : ¬acc.1 > acc.2 := Int32.not_lt.2 (Int32.le_iff_toInt_le.2 hacc)
      simp [hsame]
    | some m =>
      by_cases hmore : m > acc.2
      · have hlt := Int32.lt_iff_toInt_lt.1 hmore
        simp only [Option.getD_some, if_pos hmore, Option.some.injEq, exists_eq_left']
        omega
      · have hle := Int32.le_iff_toInt_le.1 (Int32.not_lt.1 hmore)
        simp only [Option.getD_some, if_neg hmore, Option.some.injEq, exists_eq_left']
        omega
  · rename_i hentry
    have hnone : ¬∃ m, entry.Shows tag m ∧ n ≤ m.toInt := by
      rintro ⟨m, hm, -⟩
      exact hentry (by rw [hm.isDir, Bool.true_and, decide_eq_true_eq]; exact hm.tag)
    rw [or_iff_left hnone]

theorem le_foldl_scanEntry_iff {acc : Int32 × Int32} (hacc : acc.1.toInt ≤ acc.2.toInt)
    (entries : List Dirent) (n : Int) :
    n ≤ (entries.foldl (scanEntry tag) acc).2.toInt ↔
      n ≤ acc.2.toInt ∨ ∃ entry ∈ entries, ∃ m, entry.Shows tag m ∧ n ≤ m.toInt := by
  induction entries generalizing acc with
  | nil => simp
  | cons entry entries ih =>
    rw [List.foldl_cons, ih (scanEntry_le hacc entry), le_scanEntry_iff hacc entry]
    simp [or_assoc]

/-- The maximum is reached by the configured id or by a number that is read. -/
theorem le_getMaxRunid_iff (w : FzWriter) (disk : Disk) (n : Int) :
    n ≤ (w.getMaxRunid disk).toInt ↔ n ≤ w.dirid.toInt32.toInt ∨
      ∃ entry ∈ disk.entries, ∃ m, entry.Shows w.runtag m ∧ n ≤ m.toInt :=
  le_foldl_scanEntry_iff (Int.le_refl _) disk.entries n

end FzWriter

theorem toInt32_toInt {n : UInt32} (hn : n.toNat < 2 ^ 31) : n.toInt32.toInt = n.toNat := by
  have hint : n.toInt32.toInt = if 2 * n.toNat < 2 ^ 32 then (n.toNat : Int)
      else (n.toNat : Int) - (2 ^ 32 : Nat) := BitVec.toInt_eq_toNat_cond n.toBitVec
  rw [hint, if_pos (by omega)]

theorem toUInt32_succ {m : Int32} (hm : 0 ≤ m.toInt) :
    ((m + 1).toUInt32.toNat : Int) = m.toInt + 1 := by
  have hlt := m.toUInt32.toNat_lt
  have hint : m.toInt = if 2 * m.toUInt32.toNat < 2 ^ 32 then (m.toUInt32.toNat : Int)
      else (m.toUInt32.toNat : Int) - (2 ^ 32 : Nat) := BitVec.toInt_eq_toNat_cond m.toBitVec
  have hsucc : (m + 1).toUInt32.toNat = (m.toUInt32.toNat + 1) % 2 ^ 32 :=
    UInt32.toNat_add m.toUInt32 1
  rw [hsucc]
  split at hint <;> omega

namespace FzWriter

variable {w : FzWriter} {disk : Disk} {base tag : String} {id first : UInt32} {op : Op}
  {ops : List Op}

/-! ## The directories of a process -/

/-- The number of directories that the operations take. -/
def renewals (w : FzWriter) : List Op → Nat
  | [] => 0
  | op :: ops => (if w.renews op then 1 else 0) + (w.perform op).renewals ops

/-- The directories that the operations take, in order. -/
def newDirs (w : FzWriter) : List Op → List String
  | [] => []
  | op :: ops => (if w.renews op then [(w.perform op).dirstr] else []) ++ (w.perform op).newDirs ops

/-- The directories of a process, that of the constructor first. -/
def dirsUsed (w : FzWriter) (ops : List Op) : List String := w.dirstr :: w.newDirs ops

theorem map_ids_succ (name : UInt32 → String) (id : UInt32) (n : Nat) :
    (List.range (n + 1)).map (fun k => name (id + UInt32.ofNat k)) =
      name id :: (List.range n).map fun k => name (id + 1 + UInt32.ofNat k) := by
  rw [List.range_succ_eq_map, List.map_cons, List.map_map]
  simp [Function.comp_def, UInt32.ofNat_add, UInt32.add_assoc, UInt32.add_comm]

theorem In.newDirs (h : w.In base tag id) (ops : List Op) : w.newDirs ops =
    (List.range (w.renewals ops)).map fun k => dirName base tag (id + 1 + UInt32.ofNat k) := by
  induction ops generalizing w id with
  | nil => rfl
  | cons op ops ih =>
    have hnext := h.perform op
    rw [FzWriter.newDirs, renewals, ih hnext]
    unfold idBehind at hnext ⊢
    split
    · rename_i hrenews
      rw [if_pos hrenews] at hnext
      rw [Nat.add_comm 1, map_ids_succ (dirName base tag), hnext.dirstr]
      rfl
    · rw [List.nil_append, Nat.zero_add]

theorem In.dirsUsed (h : w.In base tag id) (ops : List Op) : w.dirsUsed ops =
    (List.range (w.renewals ops + 1)).map fun k => dirName base tag (id + UInt32.ofNat k) := by
  rw [FzWriter.dirsUsed, h.newDirs, h.dirstr, map_ids_succ (dirName base tag)]

/-- The ids of the directories stay below `2 ^ 31`. -/
def IdsLow (w : FzWriter) (ops : List Op) : Prop := (w.dirid - 1).toNat + w.renewals ops < 2 ^ 31

/-- Whatever is done to the writer, as long as the ids stay low, the directories that it takes
are different and none of them is an entry that the base directory had at start-up. -/
def NeverReuses (w : FzWriter) (entries : List Dirent) : Prop :=
  ∀ ops, w.IdsLow ops → (w.dirsUsed ops).Nodup ∧
    ∀ entry ∈ entries, w.basedir ++ "/" ++ entry.dName ∉ w.dirsUsed ops

instance (w : FzWriter) (ops : List Op) : Decidable (w.IdsLow ops) :=
  inferInstanceAs (Decidable (_ < _))

theorem In.idsLow (h : w.In base tag id) (ops : List Op) :
    w.IdsLow ops ↔ id.toNat + w.renewals ops < 2 ^ 31 := by
  have hid : w.dirid - 1 = id := by
    rw [h.dirid]
    exact UInt32.add_sub_cancel id 1
  rw [IdsLow, hid]

theorem add_ofNat_toNat {k : Nat} (hk : id.toNat + k < 2 ^ 31) :
    (id + UInt32.ofNat k).toNat = id.toNat + k := by
  rw [UInt32.toNat_add, UInt32.toNat_ofNat']
  omega

/-- The names that an entry of the base directory may have in common with a directory that
is taken. -/
theorem entry_eq_dirName_iff (base tag name : String) (id : UInt32) :
    base ++ "/" ++ name = dirName base tag id ↔
      name = tag ++ String.ofList (zeroPadded 6 id.toNat) := by
  rw [dirName, ← String.toList_inj, ← String.toList_inj]
  simp only [String.toList_append, List.append_cancel_left_eq, List.append_assoc]

theorem In.nodup (h : w.In base tag id) (hlow : w.IdsLow ops) : (w.dirsUsed ops).Nodup := by
  rw [h.idsLow] at hlow
  rw [h.dirsUsed]
  refine List.Nodup.map_on ?_ List.nodup_range
  intro k hk k' hk' heq
  rw [List.mem_range] at hk hk'
  have hids := congrArg UInt32.toNat (dirName_injective heq)
  rw [add_ofNat_toNat (by omega), add_ofNat_toNat (by omega)] at hids
  omega

theorem In.mem_dirsUsed_iff (h : w.In base tag id) (hlow : w.IdsLow ops) (name : String) :
    base ++ "/" ++ name ∈ w.dirsUsed ops ↔ ∃ n, id.toNat ≤ n ∧ n ≤ id.toNat + w.renewals ops ∧
      name = tag ++ String.ofList (zeroPadded 6 n) := by
  rw [h.idsLow] at hlow
  rw [h.dirsUsed, List.mem_map]
  constructor
  · rintro ⟨k, hk, heq⟩
    rw [List.mem_range] at hk
    rw [eq_comm, entry_eq_dirName_iff, add_ofNat_toNat (by omega)] at heq
    exact ⟨id.toNat + k, by omega, by omega, heq⟩
  · rintro ⟨n, hle, hge, heq⟩
    refine ⟨n - id.toNat, List.mem_range.2 (by omega), ?_⟩
    rw [eq_comm, entry_eq_dirName_iff, add_ofNat_toNat (by omega)]
    rw [heq]
    congr 3
    omega

/-! ## A process that takes many directories -/

/-- Runs that are started one after the other. -/
def restarts : Nat → List Op
  | 0 => []
  | k + 1 => .setRcstate .paused {} :: .setRcstate .running {} :: restarts k

theorem renewDir_store (w : FzWriter) (disk : Disk) : (w.renewDir disk).store = w.store := by
  unfold renewDir setupNewdir
  dsimp only
  split <;> rfl

theorem setRcstate_store (w : FzWriter) (s : RCstate) (disk : Disk) :
    (w.setRcstate s disk).store = w.store := by
  rw [setRcstate_eq]
  split
  · exact renewDir_store w disk
  · rfl

theorem renewals_restarts (w : FzWriter) (k : Nat) (hrun : w.rcstate = .running)
    (hnew : w.startNewdir = false) (hstore : w.store = true) : w.renewals (restarts k) = k := by
  induction k generalizing w with
  | zero => rfl
  | succ k ih =>
    have hpause : w.renews (.setRcstate .paused {}) = false := by
      simp [renews, starts, hrun]
    have hpaused : w.setRcstate .paused {} = { w with rcstate := .paused } := by
      rw [setRcstate_eq, hpause]
      simp [starts, hrun]
    have hstart : (w.setRcstate .paused {}).renews (.setRcstate .running {}) = true := by
      rw [hpaused]
      simp [renews, starts, hnew, hstore]
    have hrest := ih ((w.setRcstate .paused {}).setRcstate .running {}) rfl ?_ ?_
    · rw [restarts, renewals, renewals, hpause]
      change 0 + ((if (w.setRcstate .paused {}).renews (.setRcstate .running {}) then 1 else 0) +
        ((w.setRcstate .paused {}).setRcstate .running {}).renewals (restarts k)) = k + 1
      rw [hstart, hrest, if_pos rfl]
      omega
    · rw [setRcstate_eq, hpaused, hnew]
      rfl
    · rw [setRcstate_store, setRcstate_store, hstore]

/-- The first start goes on with the directory of the constructor. -/
theorem renewals_starts (w : FzWriter) (k : Nat) (hidle : w.rcstate = .idle)
    (hnew : w.startNewdir = true) (hstore : w.store = true) :
    w.renewals (.setRcstate .ready {} :: .setRcstate .running {} :: restarts k) = k := by
  have hready : w.renews (.setRcstate .ready {}) = false := by
    simp [renews, starts, hidle]
  have hisready : w.setRcstate .ready {} = { w with rcstate := .ready } := by
    rw [setRcstate_eq, hready]
    simp [starts, hidle]
  have hstart : (w.setRcstate .ready {}).renews (.setRcstate .running {}) = false := by
    rw [hisready]
    simp [renews, hnew]
  have hrest := renewals_restarts ((w.setRcstate .ready {}).setRcstate .running {}) k rfl ?_ ?_
  · rw [renewals, renewals, hready]
    change 0 + ((if (w.setRcstate .ready {}).renews (.setRcstate .running {}) then 1 else 0) +
      ((w.setRcstate .ready {}).setRcstate .running {}).renewals (restarts k)) = k
    rw [hstart, hrest]
    simp
  · rw [setRcstate_eq, hisready]
    simp [starts]
  · rw [setRcstate_store, setRcstate_store, hstore]

/-! ## Names that are used again -/

/-- No entry of the base directory has the name of an id that the scan has not seen: for each
the configured id is as large, or a number that is read. -/
def Covers (tag : String) (id : UInt32) (entries : List Dirent) : Prop :=
  ∀ entry ∈ entries, ∀ n < 2 ^ 31, entry.dName = tag ++ String.ofList (zeroPadded 6 n) →
    n ≤ id.toNat ∨ ∃ e ∈ entries, ∃ m, e.Shows tag m ∧ (n : Int) ≤ m.toInt

theorem In.reuses_none_iff (h : w.In base tag first) (entries : List Dirent)
    (hmany : ∀ k, ∃ ops, w.renewals ops = k) : w.NeverReuses entries ↔
      ∀ entry ∈ entries, ∀ n < 2 ^ 31, entry.dName = tag ++ String.ofList (zeroPadded 6 n) →
        n < first.toNat := by
  rw [NeverReuses, h.basedir]
  constructor
  · intro hnever entry hentry n hn hname
    by_contra hle
    obtain ⟨ops, hops⟩ := hmany (n - first.toNat)
    have hlow : w.IdsLow ops := by
      rw [h.idsLow, hops]
      omega
    refine (hnever ops hlow).2 entry hentry ((h.mem_dirsUsed_iff hlow _).2 ⟨n, ?_, ?_, hname⟩)
    · omega
    · omega
  · intro hcovers ops hlow
    refine ⟨h.nodup hlow, fun entry hentry hmem => ?_⟩
    obtain ⟨n, hle, hge, hname⟩ := (h.mem_dirsUsed_iff hlow _).1 hmem
    have hbound := (h.idsLow ops).1 hlow
    have := hcovers entry hentry n (by omega) hname
    omega

/-- The first id is behind the configured one and all numbers that are read. -/
theorem create_in (bdir run : String) (id : UInt32) (unset : Unset) (disk : Disk)
    (hid : id.toNat < 2 ^ 31) : ∃ first, (create bdir run id unset disk).In bdir run first ∧
      ∀ n : Nat, n < first.toNat ↔ n ≤ id.toNat ∨
        ∃ e ∈ disk.entries, ∃ m, e.Shows run m ∧ (n : Int) ≤ m.toInt := by
  let w : FzWriter :=
    { store := true, basedir := bdir, runtag := run, dirid := id, rcstate := .idle
      startNewdir := true, eventFileSize := unset.eventFileSize
      eventDirSize := unset.eventDirSize, esize := unset.esize, dsize := unset.dsize
      fileid := unset.fileid }
  have hmax (n : Int) : n ≤ (w.getMaxRunid disk).toInt ↔ n ≤ id.toNat ∨
      ∃ e ∈ disk.entries, ∃ m, e.Shows run m ∧ n ≤ m.toInt := by
    rw [← toInt32_toInt hid]
    exact le_getMaxRunid_iff w disk n
  have hpos : 0 ≤ (w.getMaxRunid disk).toInt := (hmax 0).2 (.inl (Int.natCast_nonneg _))
  refine ⟨(w.getMaxRunid disk + 1).toUInt32, ⟨rfl, rfl, rfl, rfl, rfl, setupNewfile_output _ disk⟩,
    fun n => ?_⟩
  have hsucc := toUInt32_succ hpos
  have hn := hmax n
  rw [Int.ofNat_le] at hn
  rw [← hn]
  omega

theorem create_many (bdir run : String) (id : UInt32) (unset : Unset) (disk : Disk)
    (esize dsize : UInt64) (k : Nat) : ∃ ops, (((create bdir run id unset disk).setEventfilesize
      esize).setEventdirsize dsize).renewals ops = k :=
  ⟨_, renewals_starts _ k rfl rfl rfl⟩

/-- A process never takes a directory again, and none that it has found, exactly if the scan
reads a number at least as large from some directory for each name of the form that it finds. -/
theorem neverReuses_iff (bdir run : String) (id : UInt32) (unset : Unset) (disk : Disk)
    (esize dsize : UInt64) (hid : id.toNat < 2 ^ 31) :
    (((create bdir run id unset disk).setEventfilesize esize).setEventdirsize dsize).NeverReuses
      disk.entries ↔ Covers run id disk.entries := by
  obtain ⟨first, hin, hfirst⟩ := create_in bdir run id unset disk hid
  have hin' : (((create bdir run id unset disk).setEventfilesize esize).setEventdirsize dsize).In
      bdir run first :=
    ⟨hin.firstrun, hin.basedir, hin.runtag, hin.dirstr, hin.dirid, hin.output⟩
  rw [hin'.reuses_none_iff disk.entries (create_many bdir run id unset disk esize dsize)]
  simp only [Covers, hfirst]

/-! ## Plain tags -/

theorem isDigit_zeroPadded {width n : Nat} {c : Char} (hc : c ∈ zeroPadded width n) :
    c.isDigit = true := by
  rcases List.mem_append.1 hc with hzero | hdigit
  · obtain rfl := List.eq_of_mem_replicate hzero
    rfl
  · exact Nat.isDigit_of_mem_toDigits (by decide) (by decide) hdigit

theorem zeroPadded_ne_nil (width n : Nat) : zeroPadded width n ≠ [] := by
  rw [zeroPadded, ne_eq, List.append_eq_nil_iff, not_and]
  exact fun _ => Nat.toDigits_ne_nil

/-- The pattern reads back what is written behind a tag that has no digits. -/
theorem scanRunid_dirName (hne : tag.toList ≠ []) (hplain : ∀ c ∈ tag.toList, c.isDigit = false)
    {n : Nat} (hn : n < 2 ^ 31) :
    scanRunid (tag ++ String.ofList (zeroPadded 6 n)) = some (Int32.ofNat n) := by
  have hchars : (tag ++ String.ofList (zeroPadded 6 n)).toList = tag.toList ++ zeroPadded 6 n := by
    simp
  have htag : ∀ c ∈ tag.toList, (!c.isDigit) = true := fun c hc => by simp [hplain c hc]
  have hhead : ∃ c cs, zeroPadded 6 n = c :: cs ∧ c.isDigit = true := by
    obtain ⟨c, cs, hcs⟩ := List.exists_cons_of_ne_nil (zeroPadded_ne_nil 6 n)
    exact ⟨c, cs, hcs, isDigit_zeroPadded (hcs ▸ List.mem_cons_self)⟩
  obtain ⟨c, cs, hcs, hc⟩ := hhead
  have htake : (tag.toList ++ zeroPadded 6 n).takeWhile (fun c => !c.isDigit) = tag.toList := by
    rw [List.takeWhile_append_of_pos htag, hcs, List.takeWhile_cons_of_neg (by simp [hc]),
      List.append_nil]
  have hdrop : (tag.toList ++ zeroPadded 6 n).dropWhile (fun c => !c.isDigit) = zeroPadded 6 n := by
    rw [List.dropWhile_append_of_pos htag, hcs, List.dropWhile_cons_of_neg (by simp [hc])]
  have hall : (zeroPadded 6 n).takeWhile Char.isDigit = zeroPadded 6 n :=
    List.takeWhile_eq_self_iff.2 fun c hc => isDigit_zeroPadded hc
  have hmin : min n (2 ^ 63 - 1) = n := by omega
  simp only [scanRunid, hchars, htake, hdrop, hall, ofDigitChars_zeroPadded, hmin]
  rw [if_neg (by simp [hne, zeroPadded_ne_nil])]

/-- With a tag that is not empty and has no digits, and with directories only under the names
of ids, no name is used again. -/
theorem covers_of_plain (hne : tag.toList ≠ []) (hplain : ∀ c ∈ tag.toList, c.isDigit = false)
    {entries : List Dirent} (hdirs : ∀ entry ∈ entries, entry.isDir = true) :
    Covers tag id entries := by
  intro entry hentry n hn hname
  refine .inr ⟨entry, hentry, Int32.ofNat n, ⟨hdirs entry hentry, ?_, ?_⟩, ?_⟩
  · rw [hname, String.toList_append]
    exact (List.prefix_append _ _).isInfix
  · rw [hname, scanRunid_dirName hne hplain hn]
  · exact Int.le_of_eq (Int32.toInt_ofNat_of_lt hn).symm

/-- A base directory that an earlier process has left. -/
def sampleDisk : Disk := { entries := [⟨true, "run000007"⟩, ⟨true, "lost+found"⟩] }

/-- `neverReuses_iff` on it. -/
theorem sampleDisk_neverReuses :
    (((create "data" "run" 3 {} sampleDisk).setEventfilesize 10).setEventdirsize 100).NeverReuses
      sampleDisk.entries :=
  (neverReuses_iff "data" "run" 3 {} sampleDisk 10 100 (by decide)).2
    (covers_of_plain (by decide) (by simp) (by simp [sampleDisk]))

/-- The same for a tag with a digit, which is what the scan reads. -/
def digitDisk : Disk :=
  { entries := [⟨true, "run2-000001"⟩, ⟨true, "run2-000002"⟩, ⟨true, "run2-000003"⟩] }

/-- The directory of id 3 is used again. -/
theorem digitDisk_reuses :
    ¬(((create "data" "run2-" 0 {} digitDisk).setEventfilesize 10).setEventdirsize
      100).NeverReuses digitDisk.entries := by
  intro h
  have hlow : (((create "data" "run2-" 0 {} digitDisk).setEventfilesize 10).setEventdirsize
      100).IdsLow [] := by
    decide +kernel
  have hfresh := (h [] hlow).2 ⟨true, "run2-000003"⟩ (by decide)
  revert hfresh
  decide +kernel

end FzWriter

end FzDaq.Writer
