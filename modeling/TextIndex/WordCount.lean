import TextIndex.Plan.Run
import TextIndex.Text.Blank

/-!
# Counting words with the planner

A second use of the planner, with a manager that holds plain lists: a text yields its words, the
words yield lower case ones, those yield a vocabulary, and both together yield the counts. The manager
tells after each step what it holds.
-/

set_option autoImplicit false

namespace TextIndex.WordCount

/-- What is built on the way from a text to its word counts. -/
inductive Stage where
  | tokens
  | lower
  | vocabulary
  | counts
deriving DecidableEq, Repr

instance : KindName Stage where
  name
    | .tokens => "Tokens"
    | .lower => "Lower"
    | .vocabulary => "Vocabulary"
    | .counts => "Counts"

/-- What each stage is built from. -/
def registry : Registry Stage where
  providers := {
    entries := [
      (.tokens, Provider.leaf),
      (.lower, Provider.leaf.requires [.tokens]),
      (.vocabulary, Provider.leaf.requires [.lower]),
      (.counts, Provider.leaf.requires [.vocabulary, .lower])]
    keys_nodup := by decide }

/-- What the manager holds, and what it has told so far. -/
structure Pipeline where
  text : String
  tokens : Option (List String) := none
  lower : Option (List String) := none
  vocabulary : Option (List String) := none
  counts : Option (List (String × Nat)) := none
  log : List String := []

namespace Pipeline

/-- The names of the stages that are held. -/
def held (p : Pipeline) : List String :=
  (if p.tokens.isSome then ["tokens"] else []) ++ (if p.lower.isSome then ["lower"] else []) ++
    (if p.vocabulary.isSome then ["vocabulary"] else []) ++
    (if p.counts.isSome then ["counts"] else [])

/-- Adds a line to what has been told. -/
def tell (p : Pipeline) (line : String) : Pipeline := { p with log := p.log ++ [line] }

/-- The different words, in order. -/
def vocabularyOf (ws : List String) : List String := (sort (fun a b => decide (a ≤ b)) ws).eraseReps

/-- The pipeline with one more stage. -/
def build (p : Pipeline) : Stage → Pipeline
  | .tokens => { p with tokens := some (Text.words p.text) }
  | .lower => { p with lower := some ((p.tokens.getD []).map Text.foldCase) }
  | .vocabulary => { p with vocabulary := some (vocabularyOf (p.lower.getD [])) }
  | .counts =>
    { p with counts := some ((p.vocabulary.getD []).map fun w => (w, (p.lower.getD []).count w)) }

/-- The pipeline without a stage. -/
def drop (p : Pipeline) : Stage → Pipeline
  | .tokens => { p with tokens := none }
  | .lower => { p with lower := none }
  | .vocabulary => { p with vocabulary := none }
  | .counts => { p with counts := none }

/-- The pipeline as a manager; nothing it does can fail. -/
def manager : Manager Stage Empty Pipeline where
  ensure _ := pure ()
  construct k _ := modify fun p =>
    let p := p.build k
    let names := ", ".intercalate (p.held.map Text.quoted)
    p.tell s!"construct {KindName.name k} holding [{names}]"
  discard k intermediate p :=
    (p.drop k).tell s!"discard   {KindName.name k} intermediate={intermediate}"
  protect k p := p.tell s!"protect   {KindName.name k}"
  unprotect k p := p.tell s!"unprotect {KindName.name k}"
  compress _ := pure ()

/-- The counts, each word in quotes. -/
def renderCounts (p : Pipeline) : String :=
  let items := (p.counts.getD []).map fun c => s!"({Text.quoted c.1}, {c.2})"
  "[" ++ ", ".intercalate items ++ "]"

end Pipeline

/-- The text whose words are counted. -/
def sampleText : String := "the quick brown fox jumps over The lazy dog the end"

/-- Everything that is told while the words of a text are counted, the order of the stages, and the
counts. -/
def report (text : String) : List String :=
  match constructAll registry Pipeline.manager [.counts] .plain { text } with
  | .ok schedule p =>
    p.log ++ [s!"order: {nameList schedule.constructed}", s!"counts: {p.renderCounts}"]
  | .error e p => p.log ++ [s!"scheduling failed: {e.message}"]

end TextIndex.WordCount
