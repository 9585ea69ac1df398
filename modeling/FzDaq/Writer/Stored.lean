import FzDaq.Writer.Recovery
import FzDaq.Writer.RunIds

/-!
# What the files hold

On disks that work and with storing switched on, the files hold the messages that were
received, in the order in which they came. The counters of what comes in do not depend on
either.
-/

namespace FzDaq.Writer

open FzDaq.Machine FzDaq.RunControl

/-- The message of an operation that receives one. -/
def receivedBy : Op → Option (List UInt8)
  | .receive message _ => some message
  | _ => none

namespace FzWriter

variable {w : FzWriter} {op : Op} {ops : List Op} {message : List UInt8} {disk : Disk}

theorem renewDir_report (w : FzWriter) (disk : Disk) : (w.renewDir disk).report = w.report :=
  (renewDir_figures w disk).2.1

theorem storeMessage_frame (w : FzWriter) (message : List UInt8) (disk : Disk) :
    (w.storeMessage message disk).report = w.report ∧
      (w.storeMessage message disk).store = w.store := by
  unfold storeMessage
  dsimp only
  split
  · exact ⟨renewDir_report _ disk, renewDir_store _ disk⟩
  · split <;> exact ⟨rfl, rfl⟩

theorem receive_frame (w : FzWriter) (message : List UInt8) (disk : Disk) :
    (w.receive message disk).store = w.store ∧
      (w.receive message disk).report.inEvents = w.report.inEvents + 1 ∧
      (w.receive message disk).report.inBytes = w.report.inBytes + message.length := by
  unfold receive
  dsimp only
  split
  · obtain ⟨hreport, hstore⟩ := storeMessage_frame { w with report := { w.report with
      inBytes := w.report.inBytes + message.length
      inEvents := w.report.inEvents + 1 } } message disk
    rw [hreport]
    exact ⟨hstore, rfl, rfl⟩
  · exact ⟨rfl, rfl, rfl⟩

theorem renewDir_rcstate (w : FzWriter) (disk : Disk) : (w.renewDir disk).rcstate = w.rcstate := by
  unfold renewDir setupNewdir
  dsimp only
  split <;> rfl

theorem receive_rcstate (w : FzWriter) (message : List UInt8) (disk : Disk) :
    (w.receive message disk).rcstate = w.rcstate := by
  unfold receive storeMessage
  dsimp only
  split
  · split
    · exact renewDir_rcstate _ disk
    · split <;> rfl
  · rfl

theorem setRcstate_report (w : FzWriter) (s : RCstate) (disk : Disk) :
    (w.setRcstate s disk).report = w.report := by
  rw [setRcstate_eq]
  split
  · exact renewDir_report w disk
  · rfl

theorem perform_in (w : FzWriter) (op : Op) :
    (w.perform op).report.inEvents = w.report.inEvents + (receivedBy op).toList.length ∧
      (w.perform op).report.inBytes =
        w.report.inBytes + (receivedBy op).toList.flatten.length := by
  cases op with
  | setRcstate s disk =>
    rw [perform, setRcstate_report]
    exact ⟨rfl, rfl⟩
  | setStore value => exact ⟨rfl, rfl⟩
  | receive message disk =>
    obtain ⟨-, hevents, hbytes⟩ := receive_frame w message disk
    refine ⟨hevents, hbytes.trans ?_⟩
    simp [receivedBy]

theorem receive_files (w : FzWriter) (message : List UInt8) (disk : Disk) :
    (w.receive message disk).files = w.files ++
      ((w.storesIn (.receive message disk)).map fun file => (file, message)).toList := by
  let u : FzWriter := { w with report := { w.report with
    inBytes := w.report.inBytes + message.length
    inEvents := w.report.inEvents + 1 } }
  unfold receive
  dsimp only
  split
  · rename_i hstore
    have hreaches : u.reaches disk = w.storesIn (.receive message disk) := by
      simp [storesIn, hstore, reaches, u]
    rw [← hreaches]
    exact (storeMessage_figures u message disk).1
  · rename_i hstore
    simp [storesIn, hstore]

/-- An operation that neither fails nor ends storing. -/
def Keeps (op : Op) : Prop := op.Works ∧ op ≠ .setStore false

theorem Ready.perform (h : w.Ready) (hstore : w.store = true) (hop : Keeps op) :
    (w.perform op).Ready ∧ (w.perform op).store = true ∧
      (w.perform op).files.map Prod.snd = w.files.map Prod.snd ++ (receivedBy op).toList := by
  obtain ⟨hworks, hset⟩ := hop
  cases op with
  | setRcstate s disk =>
    refine ⟨h.setRcstate s hworks, (setRcstate_store w s disk).trans hstore, ?_⟩
    have hfiles : (w.setRcstate s disk).files = w.files := by
      rw [setRcstate_eq]
      split
      · exact (renewDir_figures w disk).1
      · rfl
    simp [FzWriter.perform, receivedBy, hfiles]
  | setStore value =>
    have hvalue : value = true := by
      cases value with
      | true => rfl
      | false => exact absurd rfl hset
    exact ⟨⟨h.good, h.file⟩, hvalue, by simp [FzWriter.perform, setStore, receivedBy]⟩
  | receive message disk =>
    obtain ⟨file, hfile⟩ : ∃ file, w.storesIn (.receive message disk) = some file :=
      Option.isSome_iff_exists.1 (h.storesIn hworks hstore)
    refine ⟨h.receive message hworks, (receive_frame w message disk).1.trans hstore, ?_⟩
    simp [FzWriter.perform, receive_files, hfile, receivedBy]

end FzWriter

end FzDaq.Writer
