import Kmsrs.Dbgen.Rereading

/-! Pages of key tables, as they are written and as they are scanned. The scan finds
the headings and the rows that were written, and in their cells the names as they are
read again. -/

namespace Kmsrs.Dbgen.KeyTable

open Text

/-! ### Writing -/

/-- Editions that share a key. -/
structure Row where
  names : List Text
  key : Text

/-- A release, with the rows under its heading. -/
structure Section where
  release : Text
  rows : List Row

/-- The cell of the names, a line each. -/
def namesCell (names : List Text) : Text := ['<', 'b', 'r', '>'].intercalate (names.map escape)

def Row.body (row : Row) : Text :=
  ['<', 't', 'r', '>', '<', 't', 'd', '>'] ++ namesCell row.names ++ ['<', '/', 't', 'd', '>', '<', 't', 'd', '>'] ++
    row.key ++ ['<', '/', 't', 'd', '>']

def Row.render (row : Row) : Text := row.body ++ ['<', '/', 't', 'r', '>']

def renderHeading (release : Text) : Text := ['<', 'h', '3', '>'] ++ escape release ++ ['<', '/', 'h', '3', '>']

def Section.render (part : Section) : Text := renderHeading part.release ++ part.rows.flatMap Row.render

/-- The page of some releases. -/
def render (sections : List Section) : Text := sections.flatMap Section.render

/-- The keys on it. -/
def Row.entries (release source : Text) (row : Row) : List Gvlk :=
  row.names.map fun name => ⟨release, name, row.key, source⟩

def rendered (sections : List Section) (source : Text) : List Gvlk :=
  sections.flatMap fun part => part.rows.flatMap (Row.entries part.release source)

/-- A name of a release or an edition. -/
structure Name (text : Text) : Prop where
  singleSpaced : SingleSpaced text
  printable : Printable text
  not_key : ¬ isKey text

structure Row.WellFormed (row : Row) : Prop where
  names_ne_nil : row.names ≠ []
  name : ∀ name ∈ row.names, Name name
  key : keyShaped row.key

structure Section.WellFormed (part : Section) : Prop where
  release : Name part.release
  row : ∀ row ∈ part.rows, row.WellFormed

/-! ### Keys -/

theorem character_of_keyShaped {text : Text} (h : keyShaped text) : ∀ c ∈ text, c.isUpper ∨ c.isDigit ∨ c = '-' := by
  simp only [keyShaped, Bool.and_eq_true, List.all_eq_true, decide_eq_true_eq, Bool.or_eq_true] at h
  have hall : ∀ c ∈ ['-'].intercalate (text.splitOn '-'), c.isUpper ∨ c.isDigit ∨ c = '-' :=
    forall_mem_intercalate (by simp) fun group hgroup c hc => ((h.2 group hgroup).2 c hc).imp_right .inl
  rwa [List.intercalate_splitOn] at hall

theorem not_isWhitespace_of_character {c : Char} (h : c.isUpper ∨ c.isDigit ∨ c = '-') : ¬ isWhitespace c := by
  have hascii : c.toNat < 128 := by
    rcases h with h | h | rfl
    · have hupper : c.val ≤ 'Z'.val := (of_decide_eq_true h).2
      exact Nat.lt_of_le_of_lt (UInt32.le_iff_toNat_le.mp hupper) (by decide)
    · exact Nat.lt_of_le_of_lt (Char.isDigit_iff_toNat.mp h).2 (by decide)
    · decide
  have hall : ∀ code < 128, (Char.ofNat code).isUpper ∨ (Char.ofNat code).isDigit ∨ Char.ofNat code = '-' →
      ¬ isWhitespace (.ofNat code) := by decide
  have hcode := hall c.toNat hascii
  rw [Char.ofNat_toNat] at hcode
  exact hcode h

theorem not_mem_of_keyShaped {text : Text} (h : keyShaped text) {c : Char}
    (hc : ¬ (c.isUpper ∨ c.isDigit ∨ c = '-')) : c ∉ text := fun hmem => hc (character_of_keyShaped h c hmem)

theorem singleSpaced_of_keyShaped {text : Text} (h : keyShaped text) : SingleSpaced text := by
  have hsplit : text.splitOn ' ' = [text] := List.splitOn_eq_singleton (not_mem_of_keyShaped h (by decide))
  rw [SingleSpaced, hsplit, List.forall_mem_singleton]
  refine ⟨?_, fun c hc hspace => ?_⟩
  · rintro rfl
    cases h
  · exact not_isWhitespace_of_character (character_of_keyShaped h c hc) hspace

theorem escape_of_keyShaped {text : Text} (h : keyShaped text) : escape text = text := by
  have hself : ∀ c ∈ text, Html.reference c = [c] := fun c hc =>
    reference_of_not_special fun hspecial => by
      have hcharacter := character_of_keyShaped h c hc
      have hnone : ∀ c ∈ Html.special, ¬ (c.isUpper ∨ c.isDigit ∨ c = '-') := by decide
      exact hnone c hspecial hcharacter
  rw [escape, List.flatMap_congr hself]
  exact List.flatMap_singleton' text

theorem unambiguous_of_keyShaped {text : Text} (h : keyShaped text) : Unambiguous text := by
  intro c hc hoccurs
  obtain ⟨tail, htail, -⟩ := reference_eq_cons (special_of_later c hc).1
  rw [htail] at hoccurs
  exact not_mem_of_keyShaped h (by decide) (hoccurs.subset List.mem_cons_self)

/-! ### Names -/

theorem Name.separator_not_mem {text : Text} (h : Name text) : separator ∉ text := fun hmem =>
  h.printable _ hmem (by decide)

/-- A name that is not taken for a key is not taken for one when it is read again. -/
theorem Name.not_key_reread {text : Text} (h : Name text) : ¬ isKey (reread text) := by
  rcases reread_cases text with ⟨-, heq⟩ | ⟨-, -, c, hc, hmem⟩
  · rw [heq]
    exact h.not_key
  · intro hkey
    rw [isKey, (singleSpaced_reread h.singleSpaced).trim_eq] at hkey
    have hnone : ∀ c ∈ later, ¬ (c.isUpper ∨ c.isDigit ∨ c = '-') := by decide
    exact hnone c hc (character_of_keyShaped hkey c hmem)

/-! ### Stripping -/

/-- Nothing in a written text begins or ends a tag. -/
theorem not_mem_escape {c : Char} (hc : c ∈ ['<', '>']) (text : Text) : c ∉ escape text := by
  intro hmem
  obtain ⟨d, -, hd⟩ := List.mem_flatMap.mp hmem
  by_cases hspecial : d ∈ Html.special
  · have hnone : ∀ d ∈ Html.special, ∀ c ∈ ['<', '>'], c ∉ Html.reference d := by decide
    exact hnone d hspecial c hc hd
  · rw [reference_of_not_special hspecial, List.mem_singleton] at hd
    have hspecials : ∀ c ∈ ['<', '>'], c ∈ Html.special := by decide
    exact hspecial (hd ▸ hspecials c hc)

theorem stripTags_append {plain : Text} (hopen : '<' ∉ plain) (hclose : '>' ∉ plain) (tag rest : Text) :
    stripTags false tag (plain ++ rest) = plain ++ stripTags false tag rest := by
  induction plain with
  | nil => rfl
  | cons c plain ih =>
    rw [List.mem_cons, not_or] at hopen hclose
    rw [List.cons_append, stripTags, if_neg (Ne.symm hopen.1), if_neg (Ne.symm hclose.1), if_neg Bool.false_ne_true,
      ih hopen.2 hclose.2, List.cons_append]

theorem stripTags_escape (tag text rest : Text) :
    stripTags false tag (escape text ++ rest) = escape text ++ stripTags false tag rest :=
  stripTags_append (not_mem_escape (by decide) text) (not_mem_escape (by decide) text) tag rest

theorem stripTags_break (tag rest : Text) :
    stripTags false tag (['<', 'b', 'r', '>'] ++ rest) = separator :: stripTags false ['b', 'r'] rest := by
  have hbreaks : breaksALine ['b', 'r'] = true := by decide
  simp [stripTags, hbreaks]

theorem stripTags_namesCell (tag : Text) (names : List Text) :
    stripTags false tag (namesCell names) = [separator].intercalate (names.map escape) := by
  induction names generalizing tag with
  | nil => rfl
  | cons name names ih =>
    rw [namesCell] at ih ⊢
    cases names with
    | nil =>
      have hlast := stripTags_escape tag name []
      simpa [stripTags] using hlast
    | cons next names =>
      rw [List.map_cons, List.map_cons, List.intercalate_cons_cons, List.append_assoc, stripTags_escape, stripTags_break,
        ← List.map_cons, ih, List.map_cons, List.intercalate_cons_cons, List.append_assoc, List.singleton_append]

theorem escape_intercalate (names : List Text) :
    escape ([separator].intercalate names) = [separator].intercalate (names.map escape) := by
  induction names with
  | nil => rfl
  | cons name names ih =>
    cases names with
    | nil => simp
    | cons next names =>
      have hself : escape [separator] = [separator] := by decide
      rw [List.intercalate_cons_cons, escape, List.flatMap_append, List.flatMap_append, ← escape, ← escape, ← escape, ih, hself]
      simp only [List.map_cons, List.intercalate_cons_cons]

/-- Texts of which each is read as one line. -/
structure Line (text : Text) : Prop where
  singleSpaced : SingleSpaced text
  separator_not_mem : separator ∉ text

theorem Name.line {text : Text} (h : Name text) : Line text := ⟨h.singleSpaced, h.separator_not_mem⟩

theorem line_of_keyShaped {text : Text} (h : keyShaped text) : Line text :=
  ⟨singleSpaced_of_keyShaped h, not_mem_of_keyShaped h (by decide)⟩

theorem Line.reread {text : Text} (h : Line text) : Line (reread text) :=
  ⟨singleSpaced_reread h.singleSpaced, separator_not_mem_reread h.separator_not_mem⟩

theorem splitOn_lines {lines : List Text} (hne : lines ≠ []) (h : ∀ line ∈ lines, Line line) :
    ([separator].intercalate lines).splitOn separator = lines :=
  List.splitOn_intercalate _ (fun line hline => (h line hline).separator_not_mem) hne

/-- A cell of names is stripped to the names as they are read again. -/
theorem stripMarkup_namesCell {names : List Text} (hne : names ≠ []) (h : ∀ name ∈ names, Line name) :
    stripMarkup (namesCell names) = [separator].intercalate (names.map reread) := by
  have hlines : ∀ line ∈ names.map reread, Line line := by
    intro line hline
    obtain ⟨name, hname, rfl⟩ := List.mem_map.mp hline
    exact (h name hname).reread
  have hcollapse : (names.map reread).map collapse = names.map reread :=
    (List.map_congr_left fun line hline => (hlines line hline).singleSpaced.collapse_eq).trans (List.map_id _)
  rw [stripMarkup, stripTags_namesCell, ← escape_intercalate, decodeReferences_escape, reread_intercalate,
    splitOn_lines (by simpa using hne) hlines, hcollapse]

theorem segments_lines {lines : List Text} (hne : lines ≠ []) (h : ∀ line ∈ lines, Line line) :
    segments ([separator].intercalate lines) = lines := by
  have htrim : lines.map trim = lines :=
    (List.map_congr_left fun line hline => (h line hline).singleSpaced.trim_eq).trans (List.map_id _)
  rw [segments, splitOn_lines hne h, htrim, List.filter_eq_self]
  exact fun line hline => decide_eq_true (h line hline).singleSpaced.ne_nil

/-! ### Scanning -/

/-- A search for a tag passes over a text as it is written. -/
theorem skips_escape (tail text : Text) : Skips ('<' :: tail) (escape text) :=
  skips_of_not_mem (not_mem_escape (by decide) text)

theorem skips_keyShaped (tail : Text) {key : Text} (h : keyShaped key) : Skips ('<' :: tail) key :=
  skips_of_not_mem (not_mem_of_keyShaped h (by decide))

theorem skips_namesCell {tail : Text} (hbreak : Skips ('<' :: tail) ['<', 'b', 'r', '>']) (names : List Text) :
    Skips ('<' :: tail) (namesCell names) := by
  refine skips_intercalate hbreak fun part hpart => ?_
  obtain ⟨name, -, rfl⟩ := List.mem_map.mp hpart
  exact skips_escape tail name

theorem Row.skips_body {row : Row} (h : keyShaped row.key) : Skips ['<', '/', 't', 'r', '>'] row.body := by
  have hopen : Skips ['<', '/', 't', 'r', '>'] ['<', 't', 'r', '>', '<', 't', 'd', '>'] := fun rest => by
    simp [find, Option.map_map, Function.comp_def]
  have hbetween : Skips ['<', '/', 't', 'r', '>'] ['<', '/', 't', 'd', '>', '<', 't', 'd', '>'] := fun rest => by
    simp [find, Option.map_map, Function.comp_def]
  have hclose : Skips ['<', '/', 't', 'r', '>'] ['<', '/', 't', 'd', '>'] := fun rest => by
    simp [find, Option.map_map, Function.comp_def]
  have hbreak : Skips ['<', '/', 't', 'r', '>'] ['<', 'b', 'r', '>'] := fun rest => by
    simp [find, Option.map_map, Function.comp_def]
  exact (((hopen.append (skips_namesCell hbreak row.names)).append hbetween).append (skips_keyShaped _ h)).append hclose

theorem splitTags_of_find {opening closing html : Text} {start contentStart stop : ℕ}
    (hstart : find opening html = some start) (hcontent : find ['>'] (html.drop start) = some contentStart)
    (hstop : find closing ((html.drop start).drop (contentStart + 1)) = some stop) :
    splitTags opening closing html = ((html.drop start).drop (contentStart + 1)).take stop ::
      splitTags opening closing (((html.drop start).drop (contentStart + 1)).drop stop) := by
  rw [splitTags]
  split
  next hnone => cases hnone.symm.trans hstart
  next place hplace =>
    obtain rfl := Option.some.inj (hplace.symm.trans hstart)
    split
    next hnone => cases hnone.symm.trans hcontent
    next place hplace =>
      obtain rfl := Option.some.inj (hplace.symm.trans hcontent)
      simp only [hstop]

theorem splitTags_of_find_eq_none {opening closing html : Text} (h : find opening html = none) :
    splitTags opening closing html = [] := by
  rw [splitTags]
  split
  next => rfl
  next place hplace => cases hplace.symm.trans h

/-- The first region of a text that has its tags in order. -/
theorem splitTags_append {opening closing before region : Text} (hopening : opening ≠ []) (hclosing : closing ≠ [])
    (hbefore : Skips opening before) (hend : '>' ∉ opening) (hregion : Skips closing region) (rest : Text) :
    splitTags opening closing (before ++ (opening ++ '>' :: (region ++ (closing ++ rest)))) =
      region :: splitTags opening closing (closing ++ rest) := by
  have hstart := hbefore.find_append hopening ('>' :: (region ++ (closing ++ rest)))
  have hcontent : find ['>'] (opening ++ '>' :: (region ++ (closing ++ rest))) = some opening.length :=
    (skips_of_not_mem hend).find_append (List.cons_ne_nil _ _) _
  have hdrop : (opening ++ '>' :: (region ++ (closing ++ rest))).drop (opening.length + 1) = region ++ (closing ++ rest) := by
    rw [← List.drop_drop, List.drop_left, List.drop_one, List.tail_cons]
  have hstop := hregion.find_append hclosing rest
  rw [splitTags_of_find hstart (by rwa [List.drop_left]) (by rwa [List.drop_left, hdrop]), List.drop_left, hdrop,
    List.take_left, List.drop_left]

/-- The cells of a row are that of the names and that of the key. -/
theorem Row.cells {row : Row} (h : keyShaped row.key) :
    splitTags ['<', 't', 'd'] ['<', '/', 't', 'd', '>'] row.body = [namesCell row.names, row.key] := by
  have hrow : Skips ['<', 't', 'd'] ['<', 't', 'r', '>'] := fun rest => by
    simp [find, Option.map_map, Function.comp_def]
  have hclosed : Skips ['<', 't', 'd'] ['<', '/', 't', 'd', '>'] := fun rest => by
    simp [find, Option.map_map, Function.comp_def]
  have hbreak : Skips ['<', '/', 't', 'd', '>'] ['<', 'b', 'r', '>'] := fun rest => by
    simp [find, Option.map_map, Function.comp_def]
  have hbody : row.body = ['<', 't', 'r', '>'] ++ (['<', 't', 'd'] ++ '>' :: (namesCell row.names ++
      (['<', '/', 't', 'd', '>'] ++ (['<', 't', 'd'] ++ '>' :: (row.key ++ (['<', '/', 't', 'd', '>'] ++ [])))))) := by
    simp [Row.body]
  rw [hbody, splitTags_append (by decide) (by decide) hrow (by decide) (skips_namesCell hbreak row.names),
    splitTags_append (by decide) (by decide) hclosed (by decide) (skips_keyShaped _ h), List.append_nil,
    splitTags_of_find_eq_none (hclosed.find_eq_none (by decide))]

/-! ### Events -/

/-- What a tag is scanned as, and the rest of the page. -/
def scanTag (after : Text) : List Event :=
  match sectionTab after with
  | some name => .tabPanel name :: scan (after.drop 1)
  | none =>
    match heading after with
    | some (text, consumed) => .heading text :: scan (after.drop consumed)
    | none =>
      match rowEnd after with
      | some stop =>
        .row ((splitTags ['<', 't', 'd'] ['<', '/', 't', 'd', '>'] (after.take stop)).map stripMarkup) ::
          scan (after.drop stop)
      | none => scan (after.drop 1)

theorem scan_of_find {html : Text} {start : ℕ} (h : find ['<'] html = some start) : scan html = scanTag (html.drop start) := by
  rw [scan, scanTag]
  split
  next hnone => cases hnone.symm.trans h
  next place hplace =>
    obtain rfl := Option.some.inj (hplace.symm.trans h)
    dsimp only
    cases sectionTab (html.drop place) with
    | some name => rfl
    | none =>
      dsimp only
      split <;> rename_i hheading <;> simp only [hheading]
      split <;> rename_i hrow <;> simp only [hrow]

/-- Text without a tag is passed over. -/
theorem scan_append {plain : Text} (h : '<' ∉ plain) (rest : Text) : scan (plain ++ rest) = scan rest := by
  have hskip := @skips_of_not_mem '<' [] plain h rest
  cases hfind : find ['<'] rest with
  | none =>
    rw [hfind, Option.map_none] at hskip
    rw [scan, scan]
    split
    next =>
      split
      next => rfl
      next place hplace => cases hplace.symm.trans hfind
    next place hplace => cases hplace.symm.trans hskip
  | some start =>
    rw [hfind, Option.map_some] at hskip
    rw [scan_of_find hskip, scan_of_find hfind, Nat.add_comm, ← List.drop_drop, List.drop_left]

theorem scan_cons (rest : Text) : scan ('<' :: rest) = scanTag ('<' :: rest) :=
  scan_of_find (find_append_self (List.cons_ne_nil '<' []) rest)

theorem sectionTab_of_ne {c : Char} (hc : c ≠ 's') (rest : Text) : sectionTab ('<' :: c :: rest) = none := by
  rw [sectionTab, String.toList_ofList, if_neg]
  simp [List.isPrefixOf, Ne.symm hc]

theorem heading_of_ne {c : Char} (hc : c ≠ 'h') (rest : Text) : heading ('<' :: c :: rest) = none := by
  have hnone : (['1', '2', '3', '4', '5', '6'].find? fun digit => ['<', 'h', digit].isPrefixOf ('<' :: c :: rest)) = none := by
    rw [List.find?_eq_none]
    intro digit _
    simp [List.isPrefixOf, Ne.symm hc]
  rw [heading, hnone]
  rfl

theorem rowEnd_of_ne {c : Char} (hc : c ≠ 't') (rest : Text) : rowEnd ('<' :: c :: rest) = none := by
  rw [rowEnd, if_neg]
  simp [List.isPrefixOf, Ne.symm hc]

/-- A closing tag is passed over. -/
theorem scan_closing {tail : Text} (h : '<' ∉ tail) (rest : Text) : scan ('<' :: '/' :: (tail ++ rest)) = scan rest := by
  have hplain : '<' ∉ '/' :: tail := List.not_mem_cons_of_ne_of_not_mem (by decide) h
  rw [scan_cons, scanTag, sectionTab_of_ne (by decide), heading_of_ne (by decide), rowEnd_of_ne (by decide)]
  exact scan_append hplain rest

/-- A text that is written in a place of its own. -/
theorem stripMarkup_escape {text : Text} (h : Line text) : stripMarkup (escape text) = reread text := by
  have hcell : namesCell [text] = escape text := by simp [namesCell]
  have hstrip := stripMarkup_namesCell (List.cons_ne_nil text []) (List.forall_mem_singleton.mpr h)
  rw [hcell] at hstrip
  simpa using hstrip

theorem flat_reread {text : Text} (h : Line text) : flat (reread text) = reread text := by
  have hmap : ((reread text).map fun c => if c = separator then ' ' else c) = reread text := by
    refine (List.map_congr_left fun c hc => if_neg ?_).trans (List.map_id _)
    rintro rfl
    exact h.reread.separator_not_mem hc
  rw [flat, hmap, h.reread.singleSpaced.trim_eq]

theorem heading_renderHeading {release : Text} (h : Line release) (rest : Text) :
    heading (renderHeading release ++ rest) = some (reread release, 4 + (escape release).length) := by
  have hfind : (['1', '2', '3', '4', '5', '6'].find? fun digit =>
      ['<', 'h', digit].isPrefixOf (renderHeading release ++ rest)) = some '3' := by
    simp [renderHeading, List.find?, List.isPrefixOf]
  have hstart : find ['>'] (renderHeading release ++ rest) = some 3 := by
    simp [renderHeading, find, List.isPrefixOf]
  have hopen : Skips ['<', '/', 'h', '3', '>'] ['<', 'h', '3', '>'] := fun rest => by
    simp [find, Option.map_map, Function.comp_def]
  have hstop : find ['<', '/', 'h', '3', '>'] (renderHeading release ++ rest) = some (4 + (escape release).length) := by
    have hfound := (hopen.append (skips_escape _ release)).find_append (List.cons_ne_nil _ _) rest
    rw [List.length_append] at hfound
    rw [renderHeading, List.append_assoc]
    exact hfound
  have hslice : slice 4 (4 + (escape release).length) (renderHeading release ++ rest) = some (escape release) := by
    have htake : (renderHeading release ++ rest).take (4 + (escape release).length) = ['<', 'h', '3', '>'] ++ escape release := by
      rw [renderHeading, List.append_assoc]
      exact List.take_left' (by rw [List.length_append]; rfl)
    rw [slice, if_pos (by omega), htake]
    rfl
  rw [heading, hfind, Option.bind_eq_bind, Option.bind_some, hstart, Option.bind_eq_bind, Option.bind_some, hstop,
    Option.bind_eq_bind, Option.bind_some, hslice, Option.bind_some, stripMarkup_escape h, flat_reread h]

theorem scan_renderHeading {release : Text} (h : Line release) (rest : Text) :
    scan (renderHeading release ++ rest) = .heading (reread release) :: scan rest := by
  have hheading := heading_renderHeading h rest
  have hdrop : (renderHeading release ++ rest).drop (4 + (escape release).length) = ['<', '/', 'h', '3', '>'] ++ rest := by
    rw [renderHeading, List.append_assoc]
    exact List.drop_left' (by rw [List.length_append]; rfl)
  have hopen : renderHeading release ++ rest = '<' :: 'h' :: (['3', '>'] ++ escape release ++ ['<', '/', 'h', '3', '>'] ++ rest) := by
    simp [renderHeading]
  have hscan : scan (renderHeading release ++ rest) = scanTag (renderHeading release ++ rest) := by
    rw [hopen]
    exact scan_cons _
  have htab : sectionTab (renderHeading release ++ rest) = none := by
    rw [hopen]
    exact sectionTab_of_ne (by decide) _
  rw [hscan, scanTag, htab, hheading]
  simp only [hdrop]
  exact congrArg _ (scan_closing (by decide) rest)

/-- What the cells of a row are stripped to. -/
def Row.stripped (row : Row) : List Text := [[separator].intercalate (row.names.map reread), row.key]

theorem scan_row {row : Row} (h : row.WellFormed) (rest : Text) :
    scan (row.render ++ rest) = .row row.stripped :: scan rest := by
  have hopen : row.render ++ rest = '<' :: 't' :: 'r' :: (row.render ++ rest).drop 3 := by
    simp [Row.render, Row.body]
  have hscan : scan (row.render ++ rest) = scanTag (row.render ++ rest) := by
    rw [hopen]
    exact scan_cons _
  have htab : sectionTab (row.render ++ rest) = none := by
    rw [hopen]
    exact sectionTab_of_ne (by decide) _
  have hheading : heading (row.render ++ rest) = none := by
    rw [hopen]
    exact heading_of_ne (by decide) _
  have hend : rowEnd (row.render ++ rest) = some row.body.length := by
    have hbegins : ['<', 't', 'r'].isPrefixOf (row.render ++ rest) := by
      rw [hopen]
      rfl
    rw [rowEnd, if_pos hbegins, Row.render, List.append_assoc]
    exact (Row.skips_body h.key).find_append (List.cons_ne_nil _ _) rest
  have htake : (row.render ++ rest).take row.body.length = row.body := by
    rw [Row.render, List.append_assoc, List.take_left]
  have hdrop : (row.render ++ rest).drop row.body.length = ['<', '/', 't', 'r', '>'] ++ rest := by
    rw [Row.render, List.append_assoc, List.drop_left]
  have hkey : stripMarkup row.key = row.key := by
    have hstrip := stripMarkup_escape (line_of_keyShaped h.key)
    rwa [escape_of_keyShaped h.key, reread_eq_self (unambiguous_of_keyShaped h.key)] at hstrip
  rw [hscan, scanTag, htab, hheading]
  simp only [hend, htake, hdrop, Row.cells h.key, List.map_cons, List.map_nil, hkey,
    stripMarkup_namesCell h.names_ne_nil fun name hname => (h.name name hname).line]
  exact congrArg _ (scan_closing (by decide) rest)

def Section.events (part : Section) : List Event :=
  .heading (reread part.release) :: part.rows.map fun row => .row row.stripped

theorem scan_rows {rows : List Row} (h : ∀ row ∈ rows, row.WellFormed) (rest : Text) :
    scan (rows.flatMap Row.render ++ rest) = rows.map (fun row => .row row.stripped) ++ scan rest := by
  induction rows with
  | nil => rfl
  | cons row rows ih =>
    rw [List.forall_mem_cons] at h
    rw [List.flatMap_cons, List.append_assoc, scan_row h.1, ih h.2]
    rfl

/-- The scan reports the headings and the rows that were written. -/
theorem scan_render {sections : List Section} (h : ∀ part ∈ sections, part.WellFormed) :
    scan (render sections) = sections.flatMap Section.events := by
  induction sections with
  | nil =>
    rw [scan]
    rfl
  | cons part sections ih =>
    rw [List.forall_mem_cons] at h
    rw [render, List.flatMap_cons, Section.render, List.append_assoc, scan_renderHeading h.1.release.line,
      scan_rows h.1.row, ← render, ih h.2]
    rfl

end Kmsrs.Dbgen.KeyTable
