import Mathlib.Logic.Function.Basic
import SysLab.Foundation.Channel
import SysLab.PartB.Syscall

/-!
# Connections between a server and its clients

What the kernel keeps of the connections to one listening socket: those that
`accept` has not returned yet, the descriptors of the others, and the bytes under
way in each direction.  A call is answered as the kernel may answer it when nothing
fails; `none` where it blocks.
-/

namespace SysLab.PartB

open SysLab.Foundation

/-- The connections `κ`.  `dropped` are those that the server has closed. -/
structure Network (κ : Type*) (toServer toClient : Nat) where
  backlog : List κ
  peer : Int → Option κ
  inbound : κ → Channel UInt8 toServer
  outbound : κ → Channel UInt8 toClient
  dropped : κ → Bool

namespace Network

variable {κ : Type*} [DecidableEq κ] {toServer toClient : Nat}

omit [DecidableEq κ] in
/-- Nobody has connected. -/
def quiet : Network κ toServer toClient where
  backlog := []
  peer _ := none
  inbound _ := .empty
  outbound _ := .empty
  dropped _ := false

/-! ## The client's end -/

/-- `connect`, with room for `capacity` connections in the backlog. -/
def connect (capacity : Nat) (net : Network κ toServer toClient) (k : κ) :
    Option (Network κ toServer toClient) :=
  if net.backlog.length < capacity then some { net with backlog := net.backlog ++ [k] }
  else none

/-- `write` takes the bytes. -/
def send (net : Network κ toServer toClient) (k : κ) (bytes : List UInt8) :
    Option (Network κ toServer toClient) :=
  ((net.inbound k).push bytes).map fun inbound =>
    { net with inbound := Function.update net.inbound k inbound }

/-- `read` returns `n` bytes. -/
def receive (net : Network κ toServer toClient) (k : κ) (n : Nat) :
    Option (List UInt8 × Network κ toServer toClient) :=
  ((net.outbound k).pop n).map fun (bytes, outbound) =>
    (bytes, { net with outbound := Function.update net.outbound k outbound })

/-! ## The server's end -/

/-- `read` returns `bytes`; it returns none only when the client has closed the
connection and all that it has sent is read. -/
def answerRead (net : Network κ toServer toClient) (isOpen : κ → Bool) (k : κ)
    (bytes : List UInt8) : Option (Network κ toServer toClient) :=
  if bytes = [] then
    if isOpen k = false ∧ (net.inbound k).length = 0 then some net else none
  else
    match (net.inbound k).pop bytes.length with
    | none => none
    | some (taken, inbound) =>
        if taken = bytes then
          some { net with inbound := Function.update net.inbound k inbound }
        else none

/-- `write` takes `n` bytes of the chunk. -/
def answerWrite (net : Network κ toServer toClient) (k : κ) (chunk : List UInt8)
    (n : Nat) : Option (Network κ toServer toClient) :=
  if 0 < n ∧ n ≤ chunk.length then
    ((net.outbound k).push (chunk.take n)).map fun outbound =>
      { net with outbound := Function.update net.outbound k outbound }
  else none

/-- A call of the server, and the answer to it.  `isOpen` are the connections whose
client has not closed them. -/
def answer (isOpen : κ → Bool) (net : Network κ toServer toClient) :
    Syscall → Option (Network κ toServer toClient)
  | .accept fd =>
      match net.backlog with
      | [] => none
      | k :: rest =>
          some { net with backlog := rest, peer := Function.update net.peer fd (some k) }
  | .read fd _ (.ok bytes) => (net.peer fd).bind fun k => net.answerRead isOpen k bytes
  | .read _ _ (.error _) => none
  | .write fd chunk (.ok n) => (net.peer fd).bind fun k => net.answerWrite k chunk n
  | .write _ _ (.error _) => none
  | .close fd =>
      (net.peer fd).map fun k =>
        { net with
          peer := Function.update net.peer fd none
          dropped := Function.update net.dropped k true }

/-- Several calls, the newest first. -/
def answers (isOpen : κ → Bool) (net : Network κ toServer toClient) :
    Trace → Option (Network κ toServer toClient)
  | [] => some net
  | c :: h => (net.answers isOpen h).bind fun net => net.answer isOpen c

/-- Later calls do not undo the answer to the first. -/
theorem answers_append {isOpen : κ → Bool} {net net' : Network κ toServer toClient}
    {later : Trace} {c : Syscall} (h : net.answers isOpen (later ++ [c]) = some net') :
    ∃ net₁, net.answer isOpen c = some net₁ := by
  induction later generalizing net' with
  | nil => exact ⟨net', h⟩
  | cons d later ih =>
      obtain ⟨net₁, hlater, _⟩ := Option.bind_eq_some_iff.mp h
      exact ih hlater

end Network

end SysLab.PartB
