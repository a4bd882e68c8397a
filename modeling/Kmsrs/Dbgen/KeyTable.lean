import Kmsrs.Dbgen.Model
import Kmsrs.Lib.Words

/-! Client setup keys out of the tables they are published in. A page is scanned and
not parsed: tags are looked for in its text, what stands between them is stripped of
its tags, and then the references in it are replaced, one kind after another. -/

namespace Kmsrs.Dbgen.KeyTable

open Text

/-- Stands in for a line break while a cell is flattened. -/
def separator : Char := '\x01'

/-! ### Cells -/

/-- Whether a cell is exactly a product key. -/
def keyShaped (cell : Text) : Bool :=
  utf8Len cell = 29 && (cell.splitOn '-').length = 5 &&
    (cell.splitOn '-').all fun group => utf8Len group = 5 && group.all fun c => c.isUpper || c.isDigit

def isKey (cell : Text) : Bool := keyShaped (trim cell)

/-- Split a cell into its lines, with the empty ones dropped. -/
def segments (cell : Text) : List Text := ((cell.splitOn separator).map trim).filter (· ≠ [])

/-- The elements at which a new line begins. -/
def breaks : List Text := [['b', 'r'], ['/', 'p'], ['/', 'l', 'i'], ['/', 'd', 'i', 'v'], ['/', 't', 'r']]

/-- Only the letters of ASCII are put in lower case, since no other letter becomes one
of those in the names. -/
def breaksALine (tag : Text) : Bool :=
  breaks.contains (((trimEndMatches '/' (trim tag)).takeWhile (!isWhitespace ·)).map Char.toLower)

/-- The loop over the characters, with the tag that is being read. The tag is kept
until the next one begins. -/
def stripTags : (insideTag : Bool) → (tag : Text) → Text → Text
  | _, _, [] => []
  | insideTag, tag, c :: rest =>
    if c = '<' then stripTags true [] rest
    else if c = '>' then (if breaksALine tag then [separator] else []) ++ stripTags false tag rest
    else if insideTag then stripTags true (tag ++ [c]) rest
    else c :: stripTags false tag rest

/-- The references of these tables, in the order in which they are replaced. -/
def decodeReferences (text : Text) : Text :=
  let text := replace ['&', 'n', 'b', 's', 'p', ';'] [' '] text
  let text := replace ['&', 'a', 'm', 'p', ';'] ['&'] text
  let text := replace ['&', 'l', 't', ';'] ['<'] text
  let text := replace ['&', 'g', 't', ';'] ['>'] text
  let text := replace ['&', '#', '3', '9', ';'] ['\''] text
  replace ['&', 'q', 'u', 'o', 't', ';'] ['"'] text

/-- Remove tags and decode references; a tag that breaks a line becomes a separator. -/
def stripMarkup (fragment : Text) : Text :=
  [separator].intercalate (((decodeReferences (stripTags false [] fragment)).splitOn separator).map collapse)

/-- A text on one line. -/
def flat (text : Text) : Text := trim (text.map fun c => if c = separator then ' ' else c)

/-! ### Tags -/

/-- The text between two places, if they are in order. -/
def slice (start stop : ℕ) (text : Text) : Option Text := if start ≤ stop then some ((text.take stop).drop start) else none

/-- The value of a double-quoted attribute in an opening tag. -/
def tagAttribute (tag name : Text) : Option Text := do
  let needle := name ++ ['=', '"']
  let place ← find needle tag
  let value := tag.drop (place + needle.length)
  let stop ← find ['"'] value
  some (value.take stop)

/-- Every region between an opening tag and its closing tag. -/
def splitTags (opening closing html : Text) : List Text :=
  match _hopen : find opening html with
  | none => []
  | some start =>
    match _hstart : find ['>'] (html.drop start) with
    | none => []
    | some contentStart =>
      let content := (html.drop start).drop (contentStart + 1)
      match find closing content with
      | none => []
      | some stop => content.take stop :: splitTags opening closing (content.drop stop)
termination_by html.length
decreasing_by
  have := length_le_of_find _hstart
  simp only [List.length_drop, List.length_singleton] at this ⊢
  omega

/-- The name of a tab panel, if this opens one. -/
def sectionTab (fragment : Text) : Option Text :=
  if "<section".toList.isPrefixOf fragment then do
    let stop ← find ['>'] fragment
    tagAttribute (fragment.take stop) "data-tab".toList
  else none

/-- The text of a heading and where it ends, if this is one. -/
def heading (fragment : Text) : Option (Text × ℕ) := do
  let level ← ['1', '2', '3', '4', '5', '6'].find? fun digit => ['<', 'h', digit].isPrefixOf fragment
  let start ← find ['>'] fragment
  let stop ← find ['<', '/', 'h', level, '>'] fragment
  let text ← slice (start + 1) stop fragment
  some (flat (stripMarkup text), stop)

/-- The label of a tab, if this is one. -/
def tabLabel (fragment : Text) (openEnd : ℕ) : Option (Text × Text) := do
  let name ← tagAttribute (fragment.take openEnd) "data-tab".toList
  let close ← find ['<', '/', 'a', '>'] fragment
  let text := flat (stripMarkup ((slice (openEnd + 1) close fragment).getD []))
  if text = [] then none else some (name, text)

/-- The labels of the tabs. Of several for one tab the first counts. -/
def tabLabels (html : Text) : List (Text × Text) :=
  match _hopen : find ['<', 'a', ' '] html with
  | none => []
  | some start =>
    match find ['>'] (html.drop start) with
    | none => []
    | some openEnd => (tabLabel (html.drop start) openEnd).toList ++ tabLabels ((html.drop start).drop 3)
termination_by html.length
decreasing_by
  have := length_le_of_find _hopen
  simp only [List.length_drop, List.length_cons] at this ⊢
  omega

/-! ### Scanning -/

/-- What the scanner reports, in the order of the page. -/
inductive Event where
  | heading (text : Text)
  | tabPanel (name : Text)
  | row (cells : List Text)
deriving DecidableEq

/-- Where a row ends, if this is one. -/
def rowEnd (fragment : Text) : Option ℕ :=
  if ['<', 't', 'r'].isPrefixOf fragment then find ['<', '/', 't', 'r', '>'] fragment else none

/-- A closing tag does not stand where an element begins. -/
theorem find_closing_pos {c : Char} (hc : c ≠ '/') {opening closing fragment : Text} {stop : ℕ}
    (hbegins : ('<' :: c :: opening).isPrefixOf fragment) (h : find ('<' :: '/' :: closing) fragment = some stop) :
    0 < stop := by
  rw [List.isPrefixOf_iff_prefix] at hbegins
  obtain ⟨rest, rfl⟩ := hbegins
  rw [List.cons_append, List.cons_append, find, if_neg] at h
  · obtain ⟨place, -, rfl⟩ := Option.map_eq_some_iff.mp h
    exact Nat.succ_pos place
  · simp [List.isPrefixOf, Ne.symm hc]

theorem rowEnd_pos {fragment : Text} {stop : ℕ} (h : rowEnd fragment = some stop) : 0 < stop := by
  obtain ⟨hbegins, hstop⟩ := Option.ite_none_right_eq_some.mp h
  exact find_closing_pos (by decide) hbegins hstop

theorem heading_pos {fragment text : Text} {stop : ℕ} (h : heading fragment = some (text, stop)) : 0 < stop := by
  simp only [heading, Option.bind_eq_bind, Option.bind_eq_some_iff, Option.some.injEq, Prod.mk.injEq] at h
  obtain ⟨level, hlevel, start, -, stop, hstop, _, -, -, rfl⟩ := h
  have hopening := List.find?_some hlevel
  exact find_closing_pos (by decide) hopening hstop

/-- Walk the page. -/
def scan (html : Text) : List Event :=
  match _hopen : find ['<'] html with
  | none => []
  | some start =>
    let after := html.drop start
    match sectionTab after with
    | some name => .tabPanel name :: scan (after.drop 1)
    | none =>
      match _hheading : heading after with
      | some (text, consumed) => .heading text :: scan (after.drop consumed)
      | none =>
        match _hrow : rowEnd after with
        | some stop =>
          .row ((splitTags ['<', 't', 'd'] ['<', '/', 't', 'd', '>'] (after.take stop)).map stripMarkup) ::
            scan (after.drop stop)
        | none => scan (after.drop 1)
termination_by html.length
decreasing_by
  all_goals
    have := length_le_of_find _hopen
    simp only [List.length_drop, List.length_singleton] at this ⊢
  · omega
  · have := heading_pos _hheading
    omega
  · have := rowEnd_pos _hrow
    omega
  · omega

/-! ### Reading a page -/

/-- The release that rows belong to, and the keys so far. -/
structure Reading where
  heading : Text
  tab : Option Text
  keys : List Gvlk

def push (keys : List Gvlk) (entry : Gvlk) : List Gvlk := if entry ∈ keys then keys else keys ++ [entry]

def Reading.next (labels : List (Text × Text)) (source : Text) (reading : Reading) : Event → Reading
  | .heading text => { reading with heading := text, tab := none }
  | .tabPanel name => { reading with tab := labels.lookup name }
  | .row cells =>
    let cells := cells.map segments
    match cells.findSome? fun cell => cell.find? isKey with
    | none => reading
    | some key =>
      match cells.find? fun cell => !cell.any isKey && !cell.isEmpty with
      | none => reading
      | some edition =>
        let release := reading.tab.getD reading.heading
        { reading with keys := (edition.map fun name => ⟨release, name, key, source⟩).foldl push reading.keys }

/-- The keys of a page, by release, edition and key. -/
def parse (html source : Text) : List Gvlk :=
  sortBy Gvlk.sortKey ((scan html).foldl (Reading.next (tabLabels html) source) ⟨[], none, []⟩).keys

end Kmsrs.Dbgen.KeyTable
