import Kasei.Lib.JsonTree

/-! # Keys and paths of the database

`child:` is given a whole path in one string. It throws for a string with a
character that no path may hold, which ends the app, and cuts the others at the
slashes. The names in the tree, the ids of users and the keys that
`childByAutoId` draws are database keys: they pass the check and are one piece.
A string that is read from a leaf may be anything.
-/

namespace Kasei

open JsonTree

section Pieces

variable {α : Type*} [DecidableEq α]

/-- `componentsSeparatedByString:`, on characters. -/
def components (separator : α) : List α → List (List α)
  | [] => [[]]
  | c :: rest =>
      if c = separator then [] :: components separator rest
      else (components separator rest).modifyHead (c :: ·)

theorem components_eq_splitOn (separator : α) (text : List α) :
    components separator text = text.splitOn separator := by
  induction text with
  | nil => rfl
  | cons c rest ih =>
      rw [components, ih, List.splitOn_cons_eq_if_modifyHead]
      simp

end Pieces

/-- The pieces of an `FPath`: what stands between the slashes, if anything does. -/
def pieces (path : String) : Path :=
  ((components '/' path.toList).filter (!·.isEmpty)).map String.ofList

/-- `kInvalidPathCharacters`. -/
def invalidPathCharacters : List Char := ['[', ']', '.', '#', '$']

def inPath (text : String) : Bool := text.toList.all (!invalidPathCharacters.contains ·)

def isValidPathString (pathString : String) : Bool := !pathString.toList.isEmpty && inPath pathString

def isValidKey (key : String) : Bool := isValidPathString key && !key.toList.contains '/'

theorem pieces_append_slash (first second : String) :
    pieces (first ++ "/" ++ second) = pieces first ++ pieces second := by
  have slash : (first ++ "/" ++ second).toList = first.toList ++ '/' :: second.toList := by simp
  simp only [pieces, components_eq_splitOn, slash, List.splitOn_append_cons_self,
    List.filter_append, List.map_append]

theorem pieces_of_key {key : String} (valid : isValidKey key = true) : pieces key = [key] := by
  simp only [isValidKey, isValidPathString, Bool.and_eq_true, Bool.not_eq_true',
    List.contains_eq_mem, decide_eq_false_iff_not, List.isEmpty_eq_false_iff] at valid
  obtain ⟨⟨nonempty, -⟩, noSlash⟩ := valid
  simp [pieces, components_eq_splitOn, List.splitOn_eq_singleton noSlash, nonempty]

theorem inPath_append (first second : String) :
    inPath (first ++ second) = (inPath first && inPath second) := by
  simp only [inPath, String.toList_append, List.all_append]

theorem inPath_of_key {key : String} (valid : isValidKey key = true) : inPath key = true := by
  simp only [isValidKey, isValidPathString, Bool.and_eq_true] at valid
  exact valid.1.2

/-- Behind a name that passes, `child:` only looks at the characters. -/
theorem isValidPathString_append {first : String} (valid : isValidPathString first = true)
    (second : String) : isValidPathString (first ++ second) = inPath second := by
  simp only [isValidPathString, Bool.and_eq_true, Bool.not_eq_true',
    List.isEmpty_eq_false_iff] at valid
  simp [isValidPathString, inPath_append, valid.2, valid.1]

/-- Where a request is, in a zone and under an id that both may hold slashes. -/
def requestPath (zoneID id : String) : Path := "requests" :: (pieces zoneID ++ pieces id)

theorem pieces_path (first second third : String) :
    pieces s!"{first}/{second}/{third}" = pieces first ++ (pieces second ++ pieces third) := by
  have cut : s!"{first}/{second}/{third}" = first ++ "/" ++ second ++ "/" ++ third := rfl
  rw [cut, pieces_append_slash, pieces_append_slash, List.append_assoc]

theorem pieces_request (zoneID id : String) :
    pieces s!"requests/{zoneID}/{id}" = requestPath zoneID id :=
  pieces_path "requests" zoneID id

theorem requestPath_of_keys {zoneID id : String} (zone : isValidKey zoneID = true)
    (key : isValidKey id = true) : requestPath zoneID id = ["requests", zoneID, id] := by
  rw [requestPath, pieces_of_key zone, pieces_of_key key]
  rfl

end Kasei
