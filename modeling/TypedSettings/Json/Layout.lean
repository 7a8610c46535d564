import TypedSettings.Json.Taken

/-!
# The marks between the parts of lists and objects

Each function looks for the next mark of a list or an object and says whether a part follows. The faults name what the
mark should have been.
-/

namespace TypedSettings.Json

/-- What stands behind the parts read so far: the closing mark, which is taken, or one more part. -/
inductive Next where
  | close
  | part
  deriving DecidableEq, Repr

/-- Looks for one more element, taking the comma in front of it unless it is the first. -/
def nextElement (first : Bool) (text : List Char) : Except Fault (Taken Next text) :=
  match h : skipBlanks text with
  | [] => .error (.within .endOfList [])
  | ']' :: _ => .ok (.pastMark h (.here .close))
  | c :: rest =>
    if first then .ok (.atMark h .part)
    else if c ≠ ',' then .error (.within .listEndExpected (c :: rest))
    else match h' : skipBlanks rest with
      | [] => .error (.within .endOfValue [])
      | ']' :: more => .error (.within .trailingComma (']' :: more))
      | _ :: _ => .ok (.pastMark h (.atMark h' .part))

/-- Looks for one more key, taking the comma in front of it unless it is the first, and its opening quote. -/
def nextKey (first : Bool) (text : List Char) : Except Fault (Taken Next text) :=
  match h : skipBlanks text with
  | [] => .error (.within .endOfObject [])
  | '\x7d' :: _ => .ok (.pastMark h (.here .close))
  | c :: rest =>
    if first then
      if c = '"' then .ok (.pastMark h (.here .part))
      else .error (.within .keyNotString (c :: rest))
    else if c ≠ ',' then .error (.within .objectEndExpected (c :: rest))
    else match h' : skipBlanks rest with
      | [] => .error (.within .endOfValue [])
      | '"' :: _ => .ok (.pastMark h (.pastMark h' (.here .part)))
      | '\x7d' :: more => .error (.within .trailingComma ('\x7d' :: more))
      | d :: more => .error (.within .keyNotString (d :: more))

/-- Takes the colon behind a key. -/
def readColon (text : List Char) : Except Fault (Taken Unit text) :=
  match h : skipBlanks text with
  | [] => .error (.within .endOfObject [])
  | ':' :: _ => .ok (.pastMark h (.here ()))
  | c :: rest => .error (.within .colonExpected (c :: rest))

end TypedSettings.Json
