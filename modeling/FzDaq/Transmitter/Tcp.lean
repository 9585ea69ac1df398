import Mathlib

/-!
# `TcpWrite` and `TcpRead`

Both loops move at most `TcpWind` bytes at a time, and as many as the socket takes or has.
They go on until nothing is left, or give up when the socket does not become ready in time.
-/

namespace FzDaq.Transmitter

/-- The error codes of `TcpWrite` and `TcpRead`; `ok` is 0. -/
inductive TcpError where
  | ok
  | rTcpTimeout
  | rTcpRead
  | rTcpWrite
  deriving DecidableEq, Repr

def TcpWind : Nat := 0x8000

/-- What a socket answers once it is ready: `moved n` if it takes or has `n` bytes more, and
at most the bytes asked for. -/
inductive Answer where
  | moved (n : Nat)
  | failed
  deriving DecidableEq, Repr

/-- `LongEnUneFois`, for the bytes that are left. -/
def longEnUneFois (lgBuffer : Nat) : Nat := if lgBuffer > TcpWind then TcpWind else lgBuffer

theorem longEnUneFois_le (n : Nat) : longEnUneFois n ≤ n := by
  unfold longEnUneFois
  split <;> omega

/-- The bytes that are put on the connection, and the error code. Behind the last answer
`select` comes to the timeout. -/
def tcpWrite (buffer : List UInt8) : List Answer → List UInt8 × TcpError
  | [] => ([], .rTcpTimeout)
  | .failed :: _ => ([], .rTcpWrite)
  | .moved n :: answers =>
    let nbCar := min n (longEnUneFois buffer.length)
    if buffer.length - nbCar = 0 then (buffer.take nbCar, .ok)
    else
      let r := tcpWrite (buffer.drop nbCar) answers
      (buffer.take nbCar ++ r.1, r.2)

/-- The bytes that are read of a stream, and the error code. `recv` returns 0 when the other
side has closed the connection. -/
def tcpRead (lgBuffer : Nat) (stream : List UInt8) : List Answer → List UInt8 × TcpError
  | [] => ([], .rTcpTimeout)
  | .failed :: _ => ([], .rTcpRead)
  | .moved n :: answers =>
    let nbCar := min n (min (longEnUneFois lgBuffer) stream.length)
    if nbCar = 0 then ([], .rTcpRead)
    else if lgBuffer - nbCar = 0 then (stream.take nbCar, .ok)
    else
      let r := tcpRead (lgBuffer - nbCar) (stream.drop nbCar) answers
      (stream.take nbCar ++ r.1, r.2)

variable {buffer stream : List UInt8} {lgBuffer : Nat}

/-- What is on the connection are the first bytes of the buffer, and all of them exactly if
the code is OK. -/
theorem tcpWrite_spec (hne : buffer ≠ []) (answers : List Answer) :
    ∃ rest, buffer = (tcpWrite buffer answers).1 ++ rest ∧
      (rest = [] ↔ (tcpWrite buffer answers).2 = .ok) := by
  induction answers generalizing buffer with
  | nil => exact ⟨buffer, rfl, iff_of_false hne TcpError.noConfusion⟩
  | cons answer answers ih =>
    cases answer with
    | failed => exact ⟨buffer, rfl, iff_of_false hne TcpError.noConfusion⟩
    | moved n =>
      have hle := longEnUneFois_le buffer.length
      rw [tcpWrite]
      dsimp only
      split
      · rename_i hdone
        refine ⟨[], ?_, iff_of_true rfl rfl⟩
        rw [List.take_of_length_le (by omega), List.append_nil]
      · rename_i hmore
        have hleft : buffer.drop (min n (longEnUneFois buffer.length)) ≠ [] := by
          rw [← List.length_pos_iff, List.length_drop]
          omega
        obtain ⟨rest, hrest, hcode⟩ := ih hleft
        refine ⟨rest, ?_, hcode⟩
        rw [List.append_assoc, ← hrest, List.take_append_drop]

/-- What is read are the first bytes of the stream; with OK they are as many as were asked for. -/
theorem tcpRead_spec (hpos : 0 < lgBuffer) (answers : List Answer) :
    (tcpRead lgBuffer stream answers).1 <+: stream ∧
      ((tcpRead lgBuffer stream answers).2 = .ok ↔
        (tcpRead lgBuffer stream answers).1.length = lgBuffer) ∧
      (tcpRead lgBuffer stream answers).1.length ≤ lgBuffer := by
  induction answers generalizing lgBuffer stream with
  | nil =>
    exact ⟨List.nil_prefix, iff_of_false TcpError.noConfusion (Nat.ne_of_lt hpos), Nat.zero_le _⟩
  | cons answer answers ih =>
    have hnone : ([] : List UInt8).length ≠ lgBuffer := Nat.ne_of_lt hpos
    cases answer with
    | failed =>
      exact ⟨List.nil_prefix, iff_of_false TcpError.noConfusion hnone, Nat.zero_le _⟩
    | moved n =>
      have hle := longEnUneFois_le lgBuffer
      rw [tcpRead]
      dsimp only
      split
      · exact ⟨List.nil_prefix, iff_of_false TcpError.noConfusion hnone, Nat.zero_le _⟩
      rename_i hsome
      generalize hk : min n (min (longEnUneFois lgBuffer) stream.length) = k at hsome ⊢
      split
      · rename_i hdone
        have hlen : (stream.take k).length = lgBuffer := by
          rw [List.length_take]
          omega
        exact ⟨List.take_prefix _ _, iff_of_true rfl hlen, Nat.le_of_eq hlen⟩
      · rename_i hmore
        have hleft : 0 < lgBuffer - k := by omega
        obtain ⟨⟨rest, hrest⟩, hcode, hbound⟩ := @ih (stream.drop k) (lgBuffer - k) hleft
        have hlen : (stream.take k).length = k := by
          rw [List.length_take]
          omega
        refine ⟨⟨rest, ?_⟩, ?_, ?_⟩
        · rw [List.append_assoc, hrest, List.take_append_drop]
        · rw [hcode, List.length_append, hlen]
          omega
        · rw [List.length_append, hlen]
          omega

/-- However the bytes are split up on both sides, a reader that asks for the length of the
buffer gets the buffer if both sides return OK, and what it gets before is the beginning of it. -/
theorem tcpRead_tcpWrite (hne : buffer ≠ []) (sent read : List Answer) (later : List UInt8)
    (hwrite : (tcpWrite buffer sent).2 = .ok) :
    let r := tcpRead buffer.length ((tcpWrite buffer sent).1 ++ later) read
    r.1 <+: buffer ∧ (r.2 = .ok ↔ r.1 = buffer) := by
  obtain ⟨rest, hbuffer, hcode⟩ := tcpWrite_spec hne sent
  obtain rfl := hcode.2 hwrite
  rw [List.append_nil] at hbuffer
  intro r
  obtain ⟨hstart, hok, hle⟩ := @tcpRead_spec ((tcpWrite buffer sent).1 ++ later) buffer.length
    (List.length_pos_iff.2 hne) read
  rw [← hbuffer] at hstart hok hle
  have hr : r = tcpRead buffer.length (buffer ++ later) read := by
    change tcpRead buffer.length ((tcpWrite buffer sent).1 ++ later) read = _
    rw [← hbuffer]
  rw [hr]
  have hstart : (tcpRead buffer.length (buffer ++ later) read).1 <+: buffer :=
    List.prefix_of_prefix_length_le hstart (List.prefix_append ..) hle
  refine ⟨hstart, hok.trans ⟨fun hlen => hstart.eq_of_length hlen, fun heq => by rw [heq]⟩⟩

/-- `tcpRead_tcpWrite` for three bytes that are split up in two ways. -/
theorem threeBytes_read :
    let r := tcpRead 3 ((tcpWrite [1, 2, 3] [.moved 2, .moved 5]).1 ++ [7]) [.moved 1, .moved 9]
    r.1 <+: [1, 2, 3] ∧ (r.2 = .ok ↔ r.1 = [1, 2, 3]) :=
  @tcpRead_tcpWrite [1, 2, 3] (by decide) [.moved 2, .moved 5] [.moved 1, .moved 9] [7] rfl

end FzDaq.Transmitter
