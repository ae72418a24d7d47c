import Auxlry.Utf8.Bytes

/-!
# Discord messages

Discord takes messages of a bounded length, so a reply is sent in chunks. Positions
count bytes, and a slice that does not end between two characters panics.
-/

namespace Auxlry.Discord

open Utf8

/-- The outcome of a loop that may panic, run with a bounded number of iterations. -/
inductive Outcome (α : Type)
  | returned (a : α)
  | panicked
  | outOfFuel
  deriving DecidableEq, Repr

/-- `&s[..i]`. -/
def sliceTo (bs : List UInt8) (i : ℕ) : Option (List UInt8) :=
  if IsBoundary bs i then some (bs.take i) else none

/-- `&s[i..]`. -/
def sliceFrom (bs : List UInt8) (i : ℕ) : Option (List UInt8) :=
  if IsBoundary bs i then some (bs.drop i) else none

/-- `rfind` of a one-byte character: where it occurs last. -/
def rfind (b : UInt8) : List UInt8 → Option ℕ
  | [] => none
  | x :: xs =>
    match rfind b xs with
    | some i => some (i + 1)
    | none => if x = b then some 0 else none

/-- Where to split: after the last newline within the limit, or at the limit. -/
def splitAt (window : List UInt8) (maxLen : ℕ) : ℕ :=
  match rfind 10 window with
  | some i => i + 1
  | none => maxLen

/-- The loop of `chunkMessage`. -/
def chunkLoop (maxLen : ℕ) : ℕ → List UInt8 → List (List UInt8) → Outcome (List (List UInt8))
  | 0, _, _ => .outOfFuel
  | fuel + 1, remaining, chunks =>
    if remaining = [] then .returned chunks
    else if remaining.length ≤ maxLen then .returned (chunks ++ [remaining])
    else
      match sliceTo remaining maxLen with
      | none => .panicked
      | some window =>
        match sliceTo remaining (splitAt window maxLen), sliceFrom remaining (splitAt window maxLen) with
        | some chunk, some rest => chunkLoop maxLen fuel rest (chunks ++ [chunk])
        | _, _ => .panicked

/-- Split a message into chunks that fit within `maxLen`, preferring newline boundaries. -/
def chunkMessage (content : List UInt8) (maxLen fuel : ℕ) : Outcome (List (List UInt8)) :=
  if content.length ≤ maxLen then .returned [content] else chunkLoop maxLen fuel content []

/-! ## On bytes alone -/

/-- `&s[..i]` of a byte sequence. -/
def bytesTo (bs : List UInt8) (i : ℕ) : Option (List UInt8) :=
  if i ≤ bs.length then some (bs.take i) else none

/-- `&s[i..]` of a byte sequence. -/
def bytesFrom (bs : List UInt8) (i : ℕ) : Option (List UInt8) :=
  if i ≤ bs.length then some (bs.drop i) else none

/-- `chunkLoop`, with slices at any byte offset. -/
def chunkBytesLoop (maxLen : ℕ) : ℕ → List UInt8 → List (List UInt8) → Outcome (List (List UInt8))
  | 0, _, _ => .outOfFuel
  | fuel + 1, remaining, chunks =>
    if remaining = [] then .returned chunks
    else if remaining.length ≤ maxLen then .returned (chunks ++ [remaining])
    else
      match bytesTo remaining maxLen with
      | none => .panicked
      | some window =>
        match bytesTo remaining (splitAt window maxLen), bytesFrom remaining (splitAt window maxLen) with
        | some chunk, some rest => chunkBytesLoop maxLen fuel rest (chunks ++ [chunk])
        | _, _ => .panicked

/-- `chunkMessage`, with slices at any byte offset. -/
def chunkBytes (content : List UInt8) (maxLen fuel : ℕ) : Outcome (List (List UInt8)) :=
  if content.length ≤ maxLen then .returned [content] else chunkBytesLoop maxLen fuel content []

/-! ## Sending -/

/-- `str::parse::<u64>`: decimal digits after an optional plus sign. -/
def parseU64 (s : String) : Option ℕ :=
  let digits := match s.toList with
    | '+' :: cs => cs
    | cs => cs
  if !digits.isEmpty && digits.all Char.isDigit then
    let n := digits.foldl (fun n c => 10 * n + (c.toNat - 48)) 0
    if n < UInt64.size then some n else none
  else none

/-- What a call of `sendMessage` did: the messages that Discord took, and its result. -/
structure Sent where
  delivered : List (List UInt8)
  result : Except String Unit

/-- The loop of `sendMessage`. The first message that is refused ends it. -/
def sendChunks (post : List UInt8 → Bool) : List (List UInt8) → Sent
  | [] => ⟨[], .ok ()⟩
  | chunk :: chunks =>
    if post chunk then
      { sendChunks post chunks with delivered := chunk :: (sendChunks post chunks).delivered }
    else ⟨[], .error "failed to send Discord message"⟩

/-- `DiscordAdapter::send_message`. The client, once connected, says which messages to a
channel Discord takes; a channel id of zero panics. -/
def sendMessage (http : Option (ℕ → List UInt8 → Bool)) (channel : String) (content : List UInt8)
    (fuel : ℕ) : Outcome Sent :=
  match http with
  | none => .returned ⟨[], .error "Discord not connected yet"⟩
  | some post =>
    match parseU64 channel with
    | none => .returned ⟨[], .error "invalid channel ID"⟩
    | some 0 => .panicked
    | some id =>
      match chunkMessage content 2000 fuel with
      | .returned chunks => .returned (sendChunks (post id) chunks)
      | .panicked => .panicked
      | .outOfFuel => .outOfFuel

end Auxlry.Discord
