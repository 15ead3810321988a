import HeaderAccord.Fault

/-!
The console: a sink for text that may be limited to a number of bytes. A text that does not fit is
written as far as it does, and then the sink is full.
-/

namespace HeaderAccord

structure Console where
  text : String := ""
  /-- how many bytes still fit; `none` if there is no limit -/
  room : Option Nat := none
  deriving DecidableEq, Repr

namespace Console

/-- The first `n` bytes of a text; a character of which only a part fits shows as U+FFFD. -/
def cut : (n : Nat) → List Char → List Char
  | _, [] => []
  | n, c :: cs =>
    if n = 0 then []
    else if c.utf8Size ≤ n then c :: cut (n - c.utf8Size) cs
    else ['\ufffd']

def write (c : Console) (text : String) : Except IoFault Unit × Console :=
  match c.room with
  | none => (.ok (), { c with text := c.text ++ text })
  | some n =>
    if text.utf8ByteSize ≤ n then
      (.ok (), { text := c.text ++ text, room := some (n - text.utf8ByteSize) })
    else
      (.error .sinkFull,
        { text := c.text ++ String.ofList (cut n text.toList), room := some 0 })

end Console

end HeaderAccord
