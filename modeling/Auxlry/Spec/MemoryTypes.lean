import Auxlry.Spec.Text

/-!
# Memory types

The cognitive type of a memory is given by the caller, or guessed from keywords.
-/

namespace Auxlry

/-- Cognitive memory types. -/
inductive MemoryType
  | fact
  | decision
  | inference
  | preference
  | observation
  | event
  deriving DecidableEq, Repr

namespace MemoryType

def asStr : MemoryType → String
  | .fact => "fact"
  | .decision => "decision"
  | .inference => "inference"
  | .preference => "preference"
  | .observation => "observation"
  | .event => "event"

def fromStr : String → Option MemoryType
  | "fact" => some .fact
  | "decision" => some .decision
  | "inference" => some .inference
  | "preference" => some .preference
  | "observation" => some .observation
  | "event" => some .event
  | _ => none

theorem fromStr_asStr (t : MemoryType) : fromStr t.asStr = some t := by cases t <;> decide

end MemoryType

/-- `to_lowercase` of a character, as far as a search for ASCII text can tell: of the
characters outside ASCII only these two have an ASCII letter in their lower case. -/
def lowerChar (c : Char) : List Char :=
  if c = '\u212A' then ['k']
  else if c = '\u0130' then ['i', '\u0307']
  else [c.toLower]

def toLowercase (s : String) : List Char := s.toList.flatMap lowerChar

def decisionKeywords : List String :=
  ["decided to", "decision:", "we chose", "i chose", "chose to", "decided", "agreed to", "will use",
    "going with", "we'll go with", "settled on", "switching to", "migrating to", "adopting"]

def preferenceKeywords : List String :=
  ["prefer", "preference:", "i like", "i want", "favorite", "rather than", "instead of", "i'd rather",
    "i don't like", "please always", "please never", "would rather"]

def inferenceKeywords : List String :=
  ["therefore", "implies", "suggests that", "concluded", "it follows", "based on this",
    "likely because", "probably", "seems like", "appears to be", "might be", "could be", "looks like"]

def eventKeywords : List String :=
  ["happened", "occurred", "yesterday", "today", "last week", "deployed", "released", "incident",
    "outage", "updated", "installed", "migrated", "crashed", "fixed", "merged", "pushed", "shipped"]

def factKeywords : List String :=
  ["is a", "are a", "defined as", "means that", "equals", "fact:", "specification:", "the api",
    "version is", "runs on", "uses", "is built with", "is located at", "the url", "the port"]

/-- Classify memory content using keyword/pattern heuristics.
Falls back to `observation` when no pattern matches. -/
def classifyHeuristic (content : String) : MemoryType :=
  let lower := toLowercase content
  let has := fun keywords : List String => keywords.any fun k => containsText lower k.toList
  if has decisionKeywords then .decision
  else if has preferenceKeywords then .preference
  else if has inferenceKeywords then .inference
  else if has eventKeywords then .event
  else if has factKeywords then .fact
  else .observation

example : classifyHeuristic "Going with React for the frontend" = .decision := by decide

/-- The type a memory is stored with: the one asked for, if there is such a type. -/
def chooseType (memoryType : Option String) (content : String) : MemoryType :=
  (memoryType.bind MemoryType.fromStr).getD (classifyHeuristic content)

end Auxlry
