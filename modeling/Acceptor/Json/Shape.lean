import Acceptor.Json.Codec
import Acceptor.Json.Skip

/-!
# Shapes of JSON values

Readers for the shapes that a value may be asked to have: a text, a natural number, a
list, a record of named fields, and a choice among variants.  Where a value of another
shape stands, that value is still read as far as its first character demands, so that a
fault inside it comes before the mismatch.
-/

namespace Acceptor.Json

variable {α β σ : Type}

/-- The fault of a value that stands where one of another shape is wanted. -/
def wrongShape : JsonReader α := do
  match ← next with
  | none => Reader.fail .incomplete
  | some c =>
    if c = '"' then
      let _ ← Reader.item
      let _ ← unquote
    else if c = 'n' then literal "null".toList
    else if c = 't' then literal "true".toList
    else if c = 'f' then literal "false".toList
    else if c = '-' ∨ c.isDigit then
      let _ ← Reader.item
      let _ ← numeralInRange c
    else if c ≠ '[' ∧ c ≠ '{' then Reader.fail .malformed
    Reader.fail .mismatch

/-- A text. -/
def text : JsonReader String := do
  match ← next with
  | some '"' =>
    let _ ← Reader.item
    unquote
  | _ => wrongShape

/-- A natural number below `bound`. -/
def naturalBelow (bound : Nat) : JsonReader Nat := do
  match ← next with
  | none => wrongShape
  | some c =>
    if c = '-' ∨ c.isDigit then
      let _ ← Reader.item
      let n ← numeralInRange c
      match n.natural? with
      | some k => if k < bound then pure k else Reader.fail .mismatch
      | none => Reader.fail .mismatch
    else wrongShape

/-- The literal `null`. -/
def null : JsonReader Unit := do
  match ← next with
  | some 'n' => literal "null".toList
  | _ => wrongShape

/-! ### Lists -/

/-- The rest of a sequence after one of its members, up to the bracket `close`.  Members
are separated by commas, and none follows the last. -/
def moreMembers (close : Char) (member : σ → JsonReader σ) : σ → JsonReader σ :=
  Reader.loop
    (fun _ => .error .incomplete)
    (fun s c =>
      if isSpace c then pure (.inl s)
      else if c = close then pure (.inr s)
      else if c = ',' then do
        match ← next with
        | none => Reader.fail .incomplete
        | some d =>
          if d = close then Reader.fail .malformed
          else do
            let s ← member s
            pure (.inl s)
      else Reader.fail .malformed)

/-- The members of a sequence up to the bracket `close`, the other bracket of which has been
taken.  Each member is read with what those before it have made of `s`. -/
def members (close : Char) (member : σ → JsonReader σ) (s : σ) : JsonReader σ := do
  match ← next with
  | none => Reader.fail .incomplete
  | some c =>
    if c = close then
      let _ ← Reader.item
      pure s
    else
      let s ← member s
      moreMembers close member s

/-- A list. -/
def list (element : JsonReader α) : JsonReader (List α) := do
  match ← next with
  | some '[' =>
    let _ ← Reader.item
    let reversed ← members ']'
      (fun (done : List α) => do
        let a ← element
        pure (a :: done))
      []
    pure reversed.reverse
  | _ => wrongShape

/-! ### Records -/

/-- The name of a member of an object, where nothing but a text may stand. -/
def memberName : JsonReader String := do
  match ← next with
  | none => Reader.fail .incomplete
  | some '"' =>
    let _ ← Reader.item
    unquote
  | some _ => Reader.fail .malformed

/-- A member of an object.  A name that is no field is passed over with its value; a field
may not come twice. -/
def namedField (fields : List (Field σ)) (s : σ) : JsonReader σ := do
  let key ← memberName
  match fields.find? fun field => field.key == key with
  | some field =>
    if field.isRead s then Reader.fail .mismatch
    else
      colon
      field.read s
  | none =>
    colon
    skipValue
    pure s

/-- The end of a list that holds all fields of a record. -/
def endOfFields (s : σ) : JsonReader σ := do
  match ← next with
  | none => Reader.fail .incomplete
  | some ']' =>
    let _ ← Reader.item
    pure s
  | some _ => Reader.fail .malformed

/-- The fields of a record that is written as a list, after the first of them.  The list
may end early. -/
def moreFields : List (Field σ) → σ → JsonReader σ
  | [], s => endOfFields s
  | field :: fields, s => do
    match ← next with
    | none => Reader.fail .incomplete
    | some ']' =>
      let _ ← Reader.item
      pure s
    | some ',' =>
      let _ ← Reader.item
      match ← next with
      | none => Reader.fail .incomplete
      | some ']' => Reader.fail .malformed
      | some _ =>
        let s ← field.read s
        moreFields fields s
    | some _ => Reader.fail .malformed

/-- The fields of a record that is written as a list. -/
def listedFields : List (Field σ) → σ → JsonReader σ
  | [], s => endOfFields s
  | field :: fields, s => do
    match ← next with
    | none => Reader.fail .incomplete
    | some ']' =>
      let _ ← Reader.item
      pure s
    | some _ =>
      let s ← field.read s
      moreFields fields s

/-- A record, written as an object whose members come in any order, or as the list of the
values of its fields.  `start` holds no field, and `finish` makes the record of the
fields read unless one that is needed is missing. -/
def record (fields : List (Field σ)) (start : σ) (finish : σ → Option α) : JsonReader α := do
  let s ←
    match ← next with
    | some '[' =>
      let _ ← Reader.item
      listedFields fields start
    | some '{' =>
      let _ ← Reader.item
      members '}' (namedField fields) start
    | _ => wrongShape
  match finish s with
  | some a => pure a
  | none => Reader.fail .mismatch

/-! ### Variants -/

/-- The variant with the given name. -/
def variantNamed (variants : List (Variant α)) (key : String) : JsonReader (Variant α) :=
  match variants.find? fun variant => variant.key == key with
  | some variant => pure variant
  | none => Reader.fail .mismatch

/-- What follows the name of a variant: `null` if it has no content. -/
def variantContent : Variant α → JsonReader α
  | .constant _ a => do
    null
    pure a
  | .holding _ content => content

/-- A choice among variants, written as the name of a variant, or as an object whose only
member has that name and holds the content. -/
def choice (variants : List (Variant α)) : JsonReader α := do
  match ← next with
  | none => Reader.fail .incomplete
  | some '"' =>
    let _ ← Reader.item
    let key ← unquote
    match ← variantNamed variants key with
    | .constant _ a => pure a
    | .holding _ _ => Reader.fail .mismatch
  | some '{' =>
    let _ ← Reader.item
    let key ← memberName
    let variant ← variantNamed variants key
    colon
    let a ← variantContent variant
    match ← next with
    | none => Reader.fail .incomplete
    | some '}' =>
      let _ ← Reader.item
      pure a
    | some _ => Reader.fail .malformed
  | some _ => Reader.fail .malformed

/-! ### Whole texts -/

/-- Nothing but spaces, up to the end of the text. -/
def onlySpaces : JsonReader Unit := do
  match ← next with
  | none => pure ()
  | some _ => Reader.fail .malformed

end Acceptor.Json
