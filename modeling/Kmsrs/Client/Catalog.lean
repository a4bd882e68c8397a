import Kmsrs.Db.Hosts
import Kmsrs.Lib.Lines
import Kmsrs.Server.Log

/-! The listing of the catalogue as JSON lines. Whatever the names of the products hold, a script
that takes the output line by line reads one object for each entry, numbered from one. -/

namespace Kmsrs.Client.Catalog

open Text
open Kmsrs.Server (escapeJson writeJsonField writeJsonNumber)
open Kmsrs.Server.Log

/-- What to list. -/
inductive Listing where
  | products
  | keys
  | both
deriving DecidableEq

namespace Listing

def listsProducts : Listing → Bool
  | products | both => true
  | keys => false

def listsKeys : Listing → Bool
  | keys | both => true
  | products => false

end Listing

/-- A JSON string; the escapes are those of the log. -/
def quote (text : Text) : Text := '"' :: escapeJson text ++ ['"']

/-- The index is that of a slice, so the addition never saturates. -/
def productLine (entry : Db.Product × ℕ) : Text :=
  "\x7b\"kind\":\"product\",\"index\":".toList ++ decimal (entry.2 + 1) ++ ",\"key_kind\":\"".toList ++ entry.1.kind.debug ++
    "\",\"edition\":".toList ++ quote entry.1.editionId.toList ++ ",\"description\":".toList ++ quote entry.1.description.toList ++
    ",\"group_id\":".toList ++ decimal entry.1.groupId.toNat ++ ['}']

def gvlkLine (entry : Db.Gvlk × ℕ) : Text :=
  "\x7b\"kind\":\"gvlk\",\"index\":".toList ++ decimal (entry.2 + 1) ++ ",\"release\":".toList ++ quote entry.1.release.toList ++
    ",\"edition\":".toList ++ quote entry.1.edition.toList ++ ",\"key\":".toList ++ quote entry.1.key.toList ++ ['}']

/-- One object per line, each line ended. -/
def renderJson (products : List Db.Product) (gvlks : List Db.Gvlk) (listing : Listing) : Text :=
  (if listing.listsProducts then products.zipIdx.flatMap fun entry => productLine entry ++ ['\n'] else []) ++
    if listing.listsKeys then gvlks.zipIdx.flatMap fun entry => gvlkLine entry ++ ['\n'] else []

/-! ### What a script reads -/

/-- Every line of the output as JSON, provided all of them are ended. -/
def records (output : Text) : Option (List Json) :=
  let (lines, left) := Lines.cut '\n' [] output
  if left = [] then lines.mapM fun line => Json.parse line.dropLast else none

def productRow (entry : Db.Product × ℕ) : List (Json.Literal × Json) :=
  [field "kind".toList "product".toList, number "index".toList (entry.2 + 1), field "key_kind".toList entry.1.kind.debug,
    field "edition".toList entry.1.editionId.toList, field "description".toList entry.1.description.toList,
    number "group_id".toList entry.1.groupId.toNat]

def gvlkRow (entry : Db.Gvlk × ℕ) : List (Json.Literal × Json) :=
  [field "kind".toList "gvlk".toList, number "index".toList (entry.2 + 1), field "release".toList entry.1.release.toList,
    field "edition".toList entry.1.edition.toList, field "key".toList entry.1.key.toList]

/-- What there is to list, products first. -/
def rows (products : List Db.Product) (gvlks : List Db.Gvlk) (listing : Listing) : List (List (Json.Literal × Json)) :=
  (if listing.listsProducts then products.zipIdx.map productRow else []) ++
    if listing.listsKeys then gvlks.zipIdx.map gvlkRow else []

theorem plain_debug (kind : Db.KeyKind) : Plain kind.debug := by
  cases kind <;> exact plain_literal rfl (by decide)

/-- A quoted text behind a name is a member. -/
theorem quote_further {name : Text} (h : Plain name) (value : Text) :
    ',' :: '"' :: name ++ ['"', ':'] ++ quote value = Json.furtherText [field name value] := by
  rw [← Server.Log.writeJsonField_further h, writeJsonField, quote]
  simp

/-- The names in a line, none of which needs an escape. -/
theorem plain_names : ∀ name ∈ ["kind".toList, "index".toList, "key_kind".toList, "edition".toList, "description".toList,
    "group_id".toList, "release".toList, "key".toList], Plain name := by
  decide +kernel

theorem productLine_eq (entry : Db.Product × ℕ) : productLine entry = (Json.object (productRow entry)).render := by
  have hhead : "\x7b\"kind\":\"product\",\"index\":".toList =
      '{' :: writeJsonField "kind".toList "product".toList true ++ ([',', '"'] ++ "index".toList ++ ['"', ':']) := by decide +kernel
  have hkind : ",\"key_kind\":\"".toList = ',' :: '"' :: "key_kind".toList ++ ['"', ':', '"'] := by decide +kernel
  have hedition : "\",\"edition\":".toList = ['"'] ++ (',' :: '"' :: "edition".toList ++ ['"', ':']) := by decide +kernel
  have hdescription : ",\"description\":".toList = ',' :: '"' :: "description".toList ++ ['"', ':'] := by decide +kernel
  have hgroup : ",\"group_id\":".toList = [',', '"'] ++ "group_id".toList ++ ['"', ':'] := by decide +kernel
  rw [productRow, Json.render_object, ← writeJsonField_first (plain_names "kind".toList (by simp))]
  simp only [furtherText_cons, ← writeJsonNumber_further (plain_names "index".toList (by simp)),
    ← furtherText_plain (plain_names "key_kind".toList (by simp)) (plain_debug entry.1.kind),
    ← quote_further (plain_names "edition".toList (by simp)), ← quote_further (plain_names "description".toList (by simp)),
    ← writeJsonNumber_further (plain_names "group_id".toList (by simp))]
  delta productLine
  simp only [hhead, hkind, hedition, hdescription, hgroup, writeJsonNumber, List.append_assoc, List.cons_append, List.nil_append]

theorem gvlkLine_eq (entry : Db.Gvlk × ℕ) : gvlkLine entry = (Json.object (gvlkRow entry)).render := by
  have hhead : "\x7b\"kind\":\"gvlk\",\"index\":".toList =
      '{' :: writeJsonField "kind".toList "gvlk".toList true ++ ([',', '"'] ++ "index".toList ++ ['"', ':']) := by decide +kernel
  have hrelease : ",\"release\":".toList = ',' :: '"' :: "release".toList ++ ['"', ':'] := by decide +kernel
  have hedition : ",\"edition\":".toList = ',' :: '"' :: "edition".toList ++ ['"', ':'] := by decide +kernel
  have hkey : ",\"key\":".toList = ',' :: '"' :: "key".toList ++ ['"', ':'] := by decide +kernel
  rw [gvlkRow, Json.render_object, ← writeJsonField_first (plain_names "kind".toList (by simp))]
  simp only [furtherText_cons, ← writeJsonNumber_further (plain_names "index".toList (by simp)),
    ← quote_further (plain_names "release".toList (by simp)), ← quote_further (plain_names "edition".toList (by simp)),
    ← quote_further (plain_names "key".toList (by simp))]
  delta gvlkLine
  simp only [hhead, hrelease, hedition, hkey, writeJsonNumber, List.append_assoc, List.cons_append, List.nil_append]

theorem newline_not_mem_render (value : Json) : '\n' ∉ value.render := fun h =>
  absurd (Json.visible_render value '\n' h) (by decide)

theorem renderJson_eq (products : List Db.Product) (gvlks : List Db.Gvlk) (listing : Listing) :
    renderJson products gvlks listing = (rows products gvlks listing).flatMap fun row => (Json.object row).render ++ ['\n'] := by
  have hproducts : (products.zipIdx.map productRow).flatMap (fun row => (Json.object row).render ++ ['\n']) =
      products.zipIdx.flatMap fun entry => productLine entry ++ ['\n'] := by
    simp only [List.flatMap_map, productLine_eq]
  have hgvlks : (gvlks.zipIdx.map gvlkRow).flatMap (fun row => (Json.object row).render ++ ['\n']) =
      gvlks.zipIdx.flatMap fun entry => gvlkLine entry ++ ['\n'] := by
    simp only [List.flatMap_map, gvlkLine_eq]
  rw [rows, List.flatMap_append, renderJson]
  congr 1
  · split_ifs
    · exact hproducts.symm
    · rfl
  · split_ifs
    · exact hgvlks.symm
    · rfl

theorem nodup_row (products : List Db.Product) (gvlks : List Db.Gvlk) (listing : Listing) :
    ∀ row ∈ rows products gvlks listing, (Server.Log.memberNames row).Nodup := by
  have hproduct : ["kind".toList, "index".toList, "key_kind".toList, "edition".toList, "description".toList, "group_id".toList].Nodup := by
    decide +kernel
  have hgvlk : ["kind".toList, "index".toList, "release".toList, "edition".toList, "key".toList].Nodup := by decide +kernel
  intro row hrow
  rw [rows, List.mem_append] at hrow
  rcases hrow with hrow | hrow
  · split_ifs at hrow
    · obtain ⟨entry, -, rfl⟩ := List.mem_map.mp hrow
      exact hproduct
    · cases hrow
  · split_ifs at hrow
    · obtain ⟨entry, -, rfl⟩ := List.mem_map.mp hrow
      exact hgvlk
    · cases hrow

/-- Whatever the tables hold, the output is read line by line as one object for each entry, with
its number counted from one, and no object has two members of one name. -/
theorem records_renderJson (products : List Db.Product) (gvlks : List Db.Gvlk) (listing : Listing) :
    records (renderJson products gvlks listing) = some ((rows products gvlks listing).map Json.object) ∧
      ∀ row ∈ rows products gvlks listing, (Server.Log.memberNames row).Nodup := by
  refine ⟨?_, nodup_row products gvlks listing⟩
  rw [renderJson_eq, records, Lines.cut_flatMap _ fun row _ => newline_not_mem_render (Json.object row)]
  exact Lines.mapM_dropLast '\n' _ Json.parse Json.object fun row _ => Json.parse_render (Json.object row)

end Kmsrs.Client.Catalog
