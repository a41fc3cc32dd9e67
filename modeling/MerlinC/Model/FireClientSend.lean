import MerlinC.Model.Bufferevent
import MerlinC.Model.CArray

/-! # The sending client

`fireClientSend.c` joins a marker, its argument and a newline in an array of fixed size and hands
the result to the socket. The answers of the operating system are arguments; `none` is a result
of -1, or a run that writes outside the array. A `Frame` is what the client sends for an argument
that is one line.
-/

namespace MerlinC.Model

def newline : UInt8 := 10

namespace FireClientSend

/-- `char str[128]`. -/
def strSize : ℕ := 128

/-- The string that `main` builds from `argv[1]`. -/
def message (argv1 : Bytes) : Option Bytes := do
  let str := CArray.uninit strSize
  let str ← str.strcpy (ascii "[FIRE]:")
  let str ← str.strcat argv1
  let str ← str.strcat [newline]
  str.string?

/-- What the calls in `tcp_connect_server` return. -/
structure ConnectOutcome where
  aton : Bool
  socket : Option Fd
  connect : Bool
deriving DecidableEq, Repr

/-- `tcp_connect_server`. The status of `evutil_make_socket_nonblocking` is not looked at. -/
def tcpConnectServer (o : ConnectOutcome) : Option Fd :=
  if !o.aton then none
  else
    match o.socket with
    | none => none
    | some sockfd => if !o.connect then none else some sockfd

/-- `send`: the bytes that the socket takes. There is no socket behind the descriptor -1. -/
def send (sockfd : Option Fd) (taken : Option ℕ) (str : Bytes) : Option Bytes :=
  match sockfd with
  | none => none
  | some _ => taken.map str.take

/-- How `main` ends. -/
structure Exit where
  status : ℕ
  handedOver : Bytes
deriving DecidableEq, Repr

/-- The test of the result of `send`, and the two returns. -/
def conclude (sent : Option Bytes) : Exit :=
  match sent with
  | none => ⟨1, []⟩
  | some handedOver => ⟨0, handedOver⟩

/-- `main`, with the arguments that follow the name of the program. -/
def main (argv : List Bytes) (o : ConnectOutcome) (taken : Option ℕ) : Option Exit :=
  match argv with
  | [] => some ⟨0, []⟩ -- `usage`
  | argv1 :: _ => do
    let sockfd := tcpConnectServer o
    let str ← message argv1
    some (conclude (send sockfd taken str))

/-- The string is built if it fits the array together with its terminator. -/
theorem message_eq {argv1 : Bytes} (string : 0 ∉ argv1) :
    message argv1 = if argv1.length + 9 ≤ strSize then
      some (ascii "[FIRE]:" ++ argv1 ++ [newline]) else none := by
  have marker : 0 ∉ ascii "[FIRE]:" := by decide
  have line : 0 ∉ ascii "[FIRE]:" ++ argv1 :=
    fun member => (List.mem_append.mp member).elim marker string
  have whole : 0 ∉ ascii "[FIRE]:" ++ argv1 ++ [newline] :=
    fun member => (List.mem_append.mp member).elim line (by decide)
  have length : (ascii "[FIRE]:").length = 7 := by decide
  have size : strSize = 128 := rfl
  have joinedLength : (ascii "[FIRE]:" ++ argv1).length = 7 + argv1.length := by
    rw [List.length_append, length]
  obtain ⟨first, rest₁, copied, cells₁⟩ :=
    (CArray.uninit strSize).strcpy_eq (ascii "[FIRE]:") (by omega)
  simp only [message, copied, bind, Option.bind_some]
  rcases Nat.lt_or_ge (7 + argv1.length) strSize with room | long
  · obtain ⟨second, rest₂, joined, cells₂⟩ := CArray.strcat_eq argv1 cells₁ marker (by omega)
    rw [joined, Option.bind_some]
    split
    · obtain ⟨third, rest₃, ended, cells₃⟩ := CArray.strcat_eq [newline] cells₂ line
        (by rw [joinedLength, List.length_singleton]; omega)
      rw [ended, Option.bind_some]
      exact CArray.string?_eq rest₃ cells₃ whole
    · rw [CArray.strcat_eq_none [newline] cells₂ line
        (by rw [joinedLength, List.length_singleton]; omega), Option.bind_none]
  · rw [CArray.strcat_eq_none argv1 cells₁ marker (by omega), Option.bind_none,
      if_neg (by omega)]

end FireClientSend

/-- A text that is one line. -/
structure Frame where
  text : Bytes
  oneLine : newline ∉ text
deriving DecidableEq

namespace Frame

/-- The frame without its newline. -/
def line (f : Frame) : Bytes := ascii "[FIRE]:" ++ f.text

def bytes (f : Frame) : Bytes := f.line ++ [newline]

theorem line_oneLine (f : Frame) : newline ∉ f.line := by
  have marker : newline ∉ ascii "[FIRE]:" := by decide
  exact fun member => (List.mem_append.mp member).elim marker f.oneLine

/-- A frame is what `main` builds from its text, as long as that is a C string and fits. -/
theorem message_eq (f : Frame) (string : 0 ∉ f.text)
    (fits : f.line.length + 2 ≤ FireClientSend.strSize) :
    FireClientSend.message f.text = some f.bytes := by
  have length : f.line.length = (ascii "[FIRE]:").length + f.text.length := List.length_append
  have marker : (ascii "[FIRE]:").length = 7 := by decide
  rw [FireClientSend.message_eq string, if_pos (by omega)]
  rfl

end Frame

end MerlinC.Model
