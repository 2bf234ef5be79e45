/-!
# Lines of a text

Two independent notions of line live here.  `splitLines` cuts a text for
display at every line boundary that Unicode knows.  `unifyLineEnds` is applied
to text as it is read in: a carriage return, alone or before a line feed,
becomes one line feed.
-/

namespace Secrecy.Text

def lineBoundaries : List Char :=
  ['\n', '\x0b', '\x0c', '\r', '\x1c', '\x1d', '\x1e', '\x85', '\u2028',
    '\u2029']

/-- A line feed right after a carriage return belongs to the same boundary. -/
def afterReturn : List Char → List Char
  | '\n' :: rest => rest
  | rest => rest

theorem length_afterReturn_le (s : List Char) :
    (afterReturn s).length ≤ s.length := by
  unfold afterReturn
  split
  · simp
  · exact Nat.le_refl _

def firstLine : List Char → List Char × Option (List Char)
  | [] => ([], none)
  | c :: rest =>
      if c ∈ lineBoundaries then
        ([], some (if c = '\r' then afterReturn rest else rest))
      else
        let later := firstLine rest
        (c :: later.1, later.2)

theorem length_firstLine_lt {s rest : List Char}
    (h : (firstLine s).2 = some rest) : rest.length < s.length := by
  induction s with
  | nil => simp [firstLine] at h
  | cons c s ih =>
      rw [firstLine] at h
      split at h
      · simp only [Option.some.injEq] at h
        subst h
        have := length_afterReturn_le s
        split
        · simp only [List.length_cons]
          omega
        · simp
      · have := ih h
        simp
        omega

/-- A boundary at the very end of the text opens no further line. -/
def splitLines (s : List Char) : List (List Char) :=
  if s.isEmpty then []
  else
    match _following : (firstLine s).2 with
    | none => [(firstLine s).1]
    | some rest => (firstLine s).1 :: splitLines rest
termination_by s.length
decreasing_by exact length_firstLine_lt (by assumption)

def linesOf (s : String) : List String :=
  (splitLines s.toList).map String.ofList

def unifyLineEndsOnto (out : List Char) : List Char → List Char
  | [] => out.reverse
  | '\r' :: '\n' :: rest => unifyLineEndsOnto ('\n' :: out) rest
  | c :: rest =>
      unifyLineEndsOnto ((if c = '\r' then '\n' else c) :: out) rest

def unifyLineEnds (s : String) : String :=
  String.ofList (unifyLineEndsOnto [] s.toList)

end Secrecy.Text
