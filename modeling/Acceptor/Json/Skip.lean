import Acceptor.Json.Numeral
import Acceptor.Json.Quoted

/-!
# Values of no interest

`skipValue` passes over a JSON value of any shape and depth.  The brackets that are open
are kept in a list, so that the depth is not bounded.  A numeral that breaks off at the
end of the text is here not taken for one that might go on.
-/

namespace Acceptor.Json

/-- A bracket that is open. -/
inductive Bracket where
  | list
  | object
  deriving DecidableEq, Repr

/-- The character that closes a bracket. -/
def Bracket.close : Bracket → Char
  | .list => ']'
  | .object => '}'

/-- Where one stands among the open brackets. -/
inductive Spot where
  /-- Before a value. -/
  | before
  /-- After a value. -/
  | after
  deriving DecidableEq, Repr

/-- A colon. -/
def colon : JsonReader Unit := do
  match ← next with
  | none => Reader.fail .incomplete
  | some ':' => let _ ← Reader.item
  | some _ => Reader.fail .malformed

/-- Passes over the name of a member and the colon after it. -/
def skipKey : JsonReader Unit := do
  match ← next with
  | none => Reader.fail .incomplete
  | some '"' =>
    let _ ← Reader.item
    skipQuoted
    colon
  | some _ => Reader.fail .malformed

/-- A value has ended inside the given brackets: one stands after it, or all is done. -/
def valueEnded : List Bracket → (Spot × List Bracket) ⊕ Unit
  | [] => .inr ()
  | brackets => .inl (.after, brackets)

/-- Passes over what begins with `c` where a value is wanted. -/
def skipBefore (brackets : List Bracket) (c : Char) :
    JsonReader ((Spot × List Bracket) ⊕ Unit) :=
  if c = '[' then do
    match ← next with
    | none => Reader.fail .incomplete
    | some ']' =>
      let _ ← Reader.item
      pure (valueEnded brackets)
    | some _ => pure (.inl (.before, .list :: brackets))
  else if c = '{' then do
    match ← next with
    | none => Reader.fail .incomplete
    | some '}' =>
      let _ ← Reader.item
      pure (valueEnded brackets)
    | some _ =>
      skipKey
      pure (.inl (.before, .object :: brackets))
  else do
    if c = '"' then skipQuoted
    else if c = 'n' then literal "ull".toList
    else if c = 't' then literal "rue".toList
    else if c = 'f' then literal "alse".toList
    else if c = '-' ∨ c.isDigit then
      let _ ← numeral .malformed c
    else Reader.fail .malformed
    pure (valueEnded brackets)

/-- Passes over the character `c` where a value has ended. -/
def skipAfter (brackets : List Bracket) (c : Char) :
    JsonReader ((Spot × List Bracket) ⊕ Unit) :=
  match brackets with
  | [] => Reader.fail .malformed
  | bracket :: outer =>
    if c = ',' then do
      if bracket = .object then skipKey
      pure (.inl (.before, brackets))
    else if c = bracket.close then pure (valueEnded outer)
    else Reader.fail .malformed

/-- Passes over a value. -/
def skipValue : JsonReader Unit :=
  Reader.loop
    (fun _ => .error .incomplete)
    (fun (place : Spot × List Bracket) c =>
      if isSpace c then pure (.inl place)
      else
        match place.1 with
        | .before => skipBefore place.2 c
        | .after => skipAfter place.2 c)
    (.before, [])

end Acceptor.Json
