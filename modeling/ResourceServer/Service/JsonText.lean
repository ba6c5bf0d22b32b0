import ResourceServer.Service.Tokens
import ResourceServer.Service.Transparency

/-!
# The text of resources

The compact JSON text of a resource and of a list of them, as a `JsonLib` of its own. A text
shows where it ends, so it belongs to one value, and reading it back is possible.
-/

namespace ResourceServer
namespace Service

open CString AuthUtils

/-- A byte inside a JSON string. -/
def escapeByte (b : UInt8) : Bytes :=
  if b = 34 ∨ b = 92 then [92, b] else if b < 32 then ascii "\\u00" ++ hexByte b else [b]

def escapeString (s : Bytes) : Bytes := s.flatMap escapeByte

theorem escapeByte_append_injective {b b' : UInt8} {x x' : Bytes}
    (h : escapeByte b ++ x = escapeByte b' ++ x') : b = b' ∧ x = x' := by
  unfold escapeByte at h
  split_ifs at h with hquoted hquoted' hcontrol' hcontrol hquoted' hcontrol' hquoted' hcontrol'
  · obtain ⟨-, h⟩ := List.cons.inj h
    exact List.cons.inj h
  · obtain ⟨-, h⟩ := List.cons.inj h
    obtain ⟨rfl, -⟩ := List.cons.inj h
    exact absurd hquoted (by decide)
  · obtain ⟨rfl, -⟩ := List.cons.inj h
    exact absurd (Or.inr rfl) hquoted'
  · obtain ⟨-, h⟩ := List.cons.inj h
    obtain ⟨rfl, -⟩ := List.cons.inj h
    exact absurd hquoted' (by decide)
  · rw [List.append_assoc, List.append_assoc] at h
    obtain ⟨hbyte, hrest⟩ := List.append_inj (List.append_cancel_left h) rfl
    exact ⟨hexByte_injective hbyte, hrest⟩
  · obtain ⟨rfl, -⟩ := List.cons.inj h
    exact absurd (Or.inr rfl) hquoted'
  · obtain ⟨rfl, -⟩ := List.cons.inj h
    exact absurd (Or.inr rfl) hquoted
  · obtain ⟨rfl, -⟩ := List.cons.inj h
    exact absurd (Or.inr rfl) hquoted
  · exact List.cons.inj h

theorem escapeByte_ne_quote {b : UInt8} {x x' : Bytes} : 34 :: x ≠ escapeByte b ++ x' := by
  intro h
  unfold escapeByte at h
  split_ifs at h with hquoted hcontrol
  · exact absurd (List.cons.inj h).1 (by decide)
  · exact absurd (List.cons.inj h).1 (by decide)
  · exact hquoted (Or.inl (List.cons.inj h).1.symm)

theorem escapeString_quote_injective {s s' x x' : Bytes}
    (h : escapeString s ++ 34 :: x = escapeString s' ++ 34 :: x') : s = s' ∧ x = x' := by
  induction s generalizing s' with
  | nil =>
    cases s' with
    | nil => exact ⟨rfl, (List.cons.inj h).2⟩
    | cons b' s' =>
      rw [escapeString, escapeString, List.flatMap_cons, List.append_assoc] at h
      exact absurd h escapeByte_ne_quote
  | cons b s ih =>
    cases s' with
    | nil =>
      rw [escapeString, escapeString, List.flatMap_cons, List.append_assoc] at h
      exact absurd h.symm escapeByte_ne_quote
    | cons b' s' =>
      rw [escapeString, escapeString, List.flatMap_cons, List.flatMap_cons, List.append_assoc,
        List.append_assoc] at h
      obtain ⟨rfl, hrest⟩ := escapeByte_append_injective h
      obtain ⟨rfl, rfl⟩ := ih hrest
      exact ⟨rfl, rfl⟩

theorem ofInt_comma_injective {m n : ℤ} {s t : Bytes}
    (h : Decimal.ofInt m ++ 44 :: s = Decimal.ofInt n ++ 44 :: t) : m = n ∧ s = t := by
  refine ofInt_stop_injective (fun k hk => ?_) h
  rcases Decimal.mem_ofInt hk with hk | hk
  · exact absurd hk (by decide)
  · exact absurd hk (by decide)

def boolText (b : Bool) : Bytes := if b then ascii "true" else ascii "false"

theorem boolText_append_injective {b b' : Bool} {x x' : Bytes}
    (h : boolText b ++ x = boolText b' ++ x') : b = b' ∧ x = x' := by
  cases b with
  | true =>
    cases b' with
    | true => exact ⟨rfl, List.append_cancel_left h⟩
    | false => exact absurd (List.cons.inj h).1 (by decide)
  | false =>
    cases b' with
    | true => exact absurd (List.cons.inj h).1 (by decide)
    | false => exact ⟨rfl, List.append_cancel_left h⟩

namespace Resource

def text (r : Resource) : Bytes :=
  ascii "\x7b\"id\":" ++ (Decimal.ofInt r.id ++ 44 :: (ascii "\"title\":\"" ++
    (escapeString r.title ++ 34 :: (ascii ",\"content\":\"" ++
      (escapeString r.content ++ 34 :: (ascii ",\"is_file\":" ++ (boolText r.isFile ++ ascii "\x7d")))))))

theorem text_append_injective {r r' : Resource} {x x' : Bytes} (h : r.text ++ x = r'.text ++ x') :
    r = r' ∧ x = x' := by
  simp only [text, List.append_assoc, List.cons_append] at h
  obtain ⟨hid, h⟩ := ofInt_comma_injective (List.append_cancel_left h)
  obtain ⟨htitle, h⟩ := escapeString_quote_injective (List.append_cancel_left h)
  obtain ⟨hcontent, h⟩ := escapeString_quote_injective (List.append_cancel_left h)
  obtain ⟨hisFile, hrest⟩ := boolText_append_injective (List.append_cancel_left h)
  cases r
  cases r'
  cases hid
  cases htitle
  cases hcontent
  cases hisFile
  exact ⟨rfl, List.append_cancel_left hrest⟩

/-- What follows the first item of a list. -/
def tailText : List Resource → Bytes
  | [] => []
  | r :: rs => 44 :: (r.text ++ tailText rs)

theorem tailText_bracket_injective {rs rs' : List Resource} {x x' : Bytes}
    (h : tailText rs ++ 93 :: x = tailText rs' ++ 93 :: x') : rs = rs' := by
  induction rs generalizing rs' with
  | nil =>
    cases rs' with
    | nil => rfl
    | cons r' rs' => exact absurd (List.cons.inj h).1 (by decide)
  | cons r rs ih =>
    cases rs' with
    | nil => exact absurd (List.cons.inj h).1 (by decide)
    | cons r' rs' =>
      simp only [tailText, List.cons_append, List.append_assoc] at h
      obtain ⟨rfl, hrest⟩ := text_append_injective (List.cons.inj h).2
      rw [ih hrest]

def itemsText : List Resource → Bytes
  | [] => []
  | r :: rs => r.text ++ tailText rs

def listText (rs : List Resource) : Bytes :=
  ascii "\x7b\"data\":[" ++ (itemsText rs ++ 93 :: ascii "\x7d")

theorem listText_injective {rs rs' : List Resource} (h : listText rs = listText rs') : rs = rs' := by
  replace h := List.append_cancel_left h
  have hopen (r : Resource) : ∃ rest, r.text = 123 :: rest := ⟨_, rfl⟩
  cases rs with
  | nil =>
    cases rs' with
    | nil => rfl
    | cons r' rs' =>
      obtain ⟨rest, hrest⟩ := hopen r'
      rw [itemsText, itemsText, hrest] at h
      exact absurd (List.cons.inj h).1 (by decide)
  | cons r rs =>
    cases rs' with
    | nil =>
      obtain ⟨rest, hrest⟩ := hopen r
      rw [itemsText, itemsText, hrest] at h
      exact absurd (List.cons.inj h).1 (by decide)
    | cons r' rs' =>
      rw [itemsText, itemsText, List.append_assoc, List.append_assoc] at h
      obtain ⟨rfl, hrest⟩ := text_append_injective h
      rw [tailText_bracket_injective hrest]

theorem text_ne_listText {r : Resource} {rs : List Resource} : r.text ≠ listText rs := by
  intro h
  exact absurd (congrArg (·[2]?) h) (by simp [text, listText, ascii])

def ofJson? : Json → Option Resource
  | .obj [(kid, .int id), (ktitle, .str title), (kcontent, .str content), (kfile, .bool isFile)] =>
    if kid = ascii "id" ∧ ktitle = ascii "title" ∧ kcontent = ascii "content" ∧
        kfile = ascii "is_file" then some ⟨id, title, content, isFile⟩ else none
  | _ => none

@[simp] theorem ofJson?_json (r : Resource) : ofJson? r.json = some r := by
  rw [json, ofJson?, if_pos ⟨rfl, rfl, rfl, rfl⟩]

theorem ofJson?_listJson (rs : List Resource) : ofJson? (listJson rs) = none := rfl

def listOfJson? : Json → Option (List Resource)
  | .obj [(key, .arr items)] => if key = ascii "data" then items.mapM ofJson? else none
  | _ => none

theorem listOfJson?_listJson (rs : List Resource) : listOfJson? (listJson rs) = some rs := by
  rw [listJson, listOfJson?, if_pos rfl]
  induction rs with
  | nil => rfl
  | cons r rs ih =>
    rw [List.map_cons, List.mapM_cons, ofJson?_json, ih]
    rfl

end Resource

def compactText (j : Json) : Option Bytes :=
  match Resource.ofJson? j with
  | some r => some r.text
  | none => (Resource.listOfJson? j).map Resource.listText

theorem compactText_json (r : Resource) : compactText r.json = some r.text := by
  rw [compactText, Resource.ofJson?_json]

theorem compactText_listJson (rs : List Resource) :
    compactText (Resource.listJson rs) = some (Resource.listText rs) := by
  rw [compactText, Resource.ofJson?_listJson, Resource.listOfJson?_listJson, Option.map_some]

theorem compactText_injective {j j' : Json} {text : Bytes} (hj : CacheJson j) (hj' : CacheJson j')
    (h : compactText j = some text) (h' : compactText j' = some text) : j = j' := by
  cases hj with
  | resource r hid =>
    rw [compactText_json] at h
    cases hj' with
    | resource r' hid' =>
      rw [compactText_json] at h'
      have htext : r.text ++ [] = r'.text ++ [] := by
        rw [Option.some.inj h, Option.some.inj h']
      rw [(Resource.text_append_injective htext).1]
    | list rs' hid' =>
      rw [compactText_listJson] at h'
      exact absurd ((Option.some.inj h).trans (Option.some.inj h').symm) Resource.text_ne_listText
  | list rs hid =>
    rw [compactText_listJson] at h
    cases hj' with
    | resource r' hid' =>
      rw [compactText_json] at h'
      exact absurd ((Option.some.inj h').trans (Option.some.inj h).symm) Resource.text_ne_listText
    | list rs' hid' =>
      rw [compactText_listJson] at h'
      rw [Resource.listText_injective ((Option.some.inj h).trans (Option.some.inj h').symm)]

open Classical in
/-- Writes compact text, and reads what it has written. -/
noncomputable def compact : JsonLib where
  dump := compactText
  parse text :=
    if h : ∃ j, CacheJson j ∧ compactText j = some text then .ok h.choose else .error .parseError

theorem compact_roundTrips : RoundTrips compact := by
  intro j hj text htext
  have h : ∃ j, CacheJson j ∧ compactText j = some text := ⟨j, hj, htext⟩
  have hsame : h.choose = j :=
    compactText_injective h.choose_spec.1 hj h.choose_spec.2 htext
  simp only [compact, dif_pos h, hsame]

end Service
end ResourceServer
