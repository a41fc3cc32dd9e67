import Mathlib.Data.List.Induction
import MerlinC.Model.Bufferevent
import MerlinC.Model.CArray

/-! # The reading client

`fireClientRead.c` prints what the server sends it. libevent appends each arrival to the input
buffer of the one bufferevent and then calls `read_cb`, which copies the front of that buffer
into an array of fixed size and prints the array as a string. Where no NUL ends the string the
call has no result.
-/

namespace MerlinC.Model

namespace FireClientRead

/-- `char msg[8192]`. -/
def msgSize : ℕ := 8192

/-- `read_cb`: the printed text and the input buffer it leaves. The status of `evbuffer_copyout`
is not looked at. -/
def readCb (input : Input) : Option (Bytes × Input) := do
  let msg := CArray.zeroed msgSize
  let msg ← match input.copyout msgSize with
    | some data => msg.write 0 data
    | none => some msg
  let text ← msg.string?
  some (text, input)

/-- `sizeof(msg)` in `cmd_msg_cb`. -/
def cmdSize : ℕ := 1024

/-- `cmd_msg_cb`: what it prints, for the bytes that `read` stored or its failure. -/
def cmdMsgCb (result : Option Bytes) : Option Bytes :=
  match result with
  | none => some []
  | some stored => do
    let msg := CArray.uninit cmdSize
    let msg ← msg.write 0 stored
    let msg ← msg.write stored.length [0]
    let text ← msg.string?
    some (ascii "send message " ++ text ++ ascii "\r\n")

/-- `char command[128]`. -/
def commandSize : ℕ := 128

/-- `command` in `doExec`. -/
def command (clientMessage : Bytes) : Option (CArray commandSize) := do
  let command := CArray.zeroed commandSize
  let command ← command.strcpy (ascii "./script/")
  command.strcat clientMessage

/-- `doExec`: the string that is given to `system`. Nothing is ever copied to `str`. -/
def doExec (clientMessage : Bytes) : Option Bytes := do
  let _ ← command clientMessage
  let str := CArray.uninit 256
  str.string?

/-- The client between two callbacks: its input buffer, and all it has printed. -/
structure Reader where
  input : Input
  printed : Bytes

namespace Reader

def start : Reader := ⟨.fresh, []⟩

/-- An arrival from the socket, and the call of `read_cb` that follows. -/
def arrive (r : Reader) (data : Bytes) : Option Reader := do
  let (text, input) ← readCb (r.input.receive data)
  some { input, printed := r.printed ++ text }

/-- Arrivals one after the other. -/
def arriveAll (arrivals : List Bytes) : Option Reader := arrivals.foldlM arrive start

end Reader

/-- The array of `read_cb` holds the front of the buffer and zeros behind it. -/
theorem readCb_msg (input : Input) : ∃ msg : CArray msgSize,
    readCb input = msg.string?.map (fun text => (text, input)) ∧
      msg.cells = (input.bytes.take msgSize).map some ++
        List.replicate (msgSize - (input.bytes.take msgSize).length) (some 0) := by
  have copied : input.copyout msgSize = some (input.bytes.take msgSize) :=
    EvBuffer.copyout_eq input.startOpen msgSize
  have room : 0 + (input.bytes.take msgSize).length ≤ msgSize := by
    rw [List.length_take]
    omega
  obtain ⟨msg, written, cells⟩ := CArray.write_eq (a := CArray.zeroed msgSize) room
  refine ⟨msg, ?_, ?_⟩
  · simp only [readCb, copied, written, bind, Option.bind_some]
    cases msg.string? with
    | none => rfl
    | some text => rfl
  · rw [cells, List.take_zero, List.nil_append, CArray.zeroed, List.drop_replicate, Nat.zero_add]

/-- Without a NUL in the buffer, `read_cb` prints all of it, if that and a NUL fit the array. -/
theorem readCb_eq {input : Input} (plain : 0 ∉ input.bytes) :
    readCb input =
      if input.bytes.length < msgSize then some (input.bytes, input) else none := by
  obtain ⟨msg, printed, cells⟩ := readCb_msg input
  have text : 0 ∉ input.bytes.take msgSize := fun member => plain (List.mem_of_mem_take member)
  rw [printed]
  split
  · next fits =>
    have rest : msgSize - input.bytes.length = msgSize - input.bytes.length - 1 + 1 := by omega
    rw [List.take_of_length_le (Nat.le_of_lt fits), rest, List.replicate_succ] at cells
    rw [CArray.string?_eq _ cells plain, Option.map_some]
  · next long =>
    have endless : msg.string? = none := by
      rw [CArray.string?, cells, CArray.scan_append text, List.length_take,
        Nat.min_eq_left (by omega)]
      simp [CArray.scan]
    rw [endless, Option.map_none]

namespace Reader

theorem arriveAll_concat (past : List Bytes) (data : Bytes) :
    arriveAll (past ++ [data]) = (arriveAll past).bind fun r => r.arrive data := by
  rw [arriveAll, List.foldlM_append, ← arriveAll]
  cases arriveAll past <;> simp

/-- An arrival prints everything that ever arrived, if it prints at all. -/
theorem arrive_eq (r : Reader) (data : Bytes) (plain : 0 ∉ r.input.bytes ++ data) :
    r.arrive data = if (r.input.bytes ++ data).length < msgSize then
      some ⟨r.input.receive data, r.printed ++ (r.input.bytes ++ data)⟩ else none := by
  have bytes : (r.input.receive data).bytes = r.input.bytes ++ data := Input.receive_bytes ..
  rw [arrive, readCb_eq (bytes.symm ▸ plain), bytes]
  split <;> rfl

/-- Nothing ever leaves the input buffer. -/
theorem arriveAll_input {past : List Bytes} {r : Reader} (plain : 0 ∉ past.flatten)
    (ran : arriveAll past = some r) : r.input.bytes = past.flatten := by
  induction past using List.reverseRecOn generalizing r with
  | nil =>
    obtain rfl := Option.some.inj ran
    rfl
  | append_singleton past data ih =>
    rw [List.flatten_append, List.flatten_singleton] at plain ⊢
    rw [arriveAll_concat] at ran
    obtain ⟨r', earlier, last⟩ := Option.bind_eq_some_iff.mp ran
    have kept := ih (fun member => plain (List.mem_append_left _ member)) earlier
    rw [arrive_eq r' data (kept.symm ▸ plain)] at last
    split at last
    · obtain rfl := Option.some.inj last
      rw [Input.receive_bytes, kept]
    · contradiction

end Reader

end FireClientRead

end MerlinC.Model
