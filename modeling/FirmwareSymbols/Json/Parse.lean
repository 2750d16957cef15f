import FirmwareSymbols.Json
import FirmwareSymbols.Json.Token

/-!
# Building JSON values

The tokens of a text are put together by a machine that reads one token at
a time. It keeps the containers that are still open, innermost first, and
what it expects next; so a text may nest to any depth.

## Main definitions

* `Json.Builder.step`: what one token does.
* `Json.ofTokens?`: the value that a whole sequence of tokens makes.
* `Json.parse?`: the value that a text says.

## Main results

* `Json.Builder.run_append`: a run over a sequence is a run over its first
  part followed by one over the rest.
-/

namespace FirmwareSymbols

namespace Json

/-- A container that is still open. -/
inductive Frame where
  /-- A list, with the items it has so far, the latest first. -/
  | list (items : List Json)
  /-- An object, with the members it has so far, the latest first, and the key whose value is being
  read. -/
  | object (members : List (Option String × Json)) (key : Option String)

/-- What may come next. -/
inductive Expectation where
  /-- A value. -/
  | value
  /-- The first item of a list, or the end of the list. -/
  | firstItem
  /-- The first key of an object, or the end of the object. -/
  | firstKey
  /-- A key of an object that has some members. -/
  | key (members : List (Option String × Json))
  /-- The colon behind a key of an object that has some members. -/
  | colon (members : List (Option String × Json)) (key : Option String)
  /-- Whatever may stand behind a value that has just been completed. -/
  | completed (value : Json)

/-- The machine between two tokens. -/
structure Builder where
  /-- The open containers, innermost first. -/
  frames : List Frame
  /-- What may come next. -/
  expects : Expectation

namespace Builder

/-- The machine before the first token. -/
def start : Builder := ⟨[], .value⟩

/-- What the first token of a value does. -/
def beginValue (frames : List Frame) : Token → Option Builder
  | .openList => some ⟨frames, .firstItem⟩
  | .openObject => some ⟨frames, .firstKey⟩
  | .null => some ⟨frames, .completed .null⟩
  | .bool b => some ⟨frames, .completed (.bool b)⟩
  | .number literal => some ⟨frames, .completed (.number literal)⟩
  | .string text => some ⟨frames, .completed (.string text)⟩
  | .closeList | .closeObject | .comma | .colon => none

/-- What a token does behind a completed value, which depends on the innermost open container. -/
def finishValue (value : Json) : List Frame → Token → Option Builder
  | .list items :: frames, .comma => some ⟨.list (value :: items) :: frames, .value⟩
  | .list items :: frames, .closeList =>
    some ⟨frames, .completed (.list (value :: items).reverse)⟩
  | .object members key :: frames, .comma => some ⟨frames, .key ((key, value) :: members)⟩
  | .object members key :: frames, .closeObject =>
    some ⟨frames, .completed (.object ((key, value) :: members).reverse)⟩
  | _, _ => none

/-- What one token does. -/
def step (builder : Builder) (token : Token) : Option Builder :=
  match builder.expects, token with
  | .value, token => beginValue builder.frames token
  | .firstItem, .closeList => some ⟨builder.frames, .completed (.list [])⟩
  | .firstItem, token => beginValue (.list [] :: builder.frames) token
  | .firstKey, .closeObject => some ⟨builder.frames, .completed (.object [])⟩
  | .firstKey, .string key => some ⟨builder.frames, .colon [] key⟩
  | .key members, .string key => some ⟨builder.frames, .colon members key⟩
  | .colon members key, .colon => some ⟨.object members key :: builder.frames, .value⟩
  | .completed value, token => finishValue value builder.frames token
  | .firstKey, _ | .key _, _ | .colon _ _, _ => none

/-- What a sequence of tokens does. -/
def run (builder : Builder) (tokens : List Token) : Option Builder := tokens.foldlM step builder

theorem run_append (builder : Builder) (first rest : List Token) :
    builder.run (first ++ rest) = (builder.run first).bind (·.run rest) := by
  simp [run, List.foldlM_append]

/-- The value that has been built when the tokens are over. -/
def result? (builder : Builder) : Option Json :=
  match builder.frames, builder.expects with
  | [], .completed value => some value
  | _, _ => none

end Builder

/-- The value that a whole sequence of tokens makes. -/
def ofTokens? (tokens : List Token) : Option Json := (Builder.start.run tokens).bind (·.result?)

/-- The value that a text says, if it is a JSON text. -/
def parse? (text : String) : Option Json := (Token.scan? text.toList).bind ofTokens?

end Json

end FirmwareSymbols
