import Fisics.Compiler.ProjectJsonNumbers
import Fisics.Compiler.ProjectJsonStrings
import Mathlib.Data.List.Nodup

/-!
# Values of the JSON parser

`parse_value` reads the values of the grammar that are nested no deeper than its bound
allows, whose objects have distinct keys and whose strings are plain. The loops of arrays
and objects are taken over any parser of their items that does the same one level down.
-/

namespace Fisics.Json

open Utf8
open List (append_assoc cons_append length_append length_cons)

-- Trees that the parser takes

/-- What the parser asks of a value with `room` levels left. -/
structure Admitted (room : Nat) (tree : JsonValue (List Nat)) : Prop where
  nesting : tree.nesting ≤ room
  distinct : tree.DistinctKeys
  plain : tree.Strings PlainPoints

structure AdmittedItems (room : Nat) (items : List (JsonValue (List Nat))) : Prop where
  nesting : nestingItems items ≤ room
  distinct : distinctItems items
  plain : stringsItems PlainPoints items

structure AdmittedMembers (room : Nat) (members : List (List Nat × JsonValue (List Nat))) : Prop where
  nesting : nestingMembers members ≤ room
  distinct : distinctMembers members
  plain : stringsMembers PlainPoints members

theorem admittedItems_nil (room : Nat) : AdmittedItems room [] :=
  ⟨Nat.zero_le _, trivial, trivial⟩

theorem admittedItems_cons : AdmittedItems room (v :: vs) ↔ Admitted room v ∧ AdmittedItems room vs := by
  constructor
  · rintro ⟨hn, hd, hs⟩
    rw [nestingItems, Nat.max_le] at hn
    exact ⟨⟨hn.1, hd.1, hs.1⟩, ⟨hn.2, hd.2, hs.2⟩⟩
  · rintro ⟨⟨hn, hd, hs⟩, ⟨hns, hds, hss⟩⟩
    refine ⟨?_, ?_, ?_⟩
    · exact Nat.max_le.mpr ⟨hn, hns⟩
    · exact ⟨hd, hds⟩
    · exact ⟨hs, hss⟩

theorem admittedMembers_nil (room : Nat) : AdmittedMembers room [] :=
  ⟨Nat.zero_le _, trivial, trivial⟩

theorem admittedMembers_cons :
    AdmittedMembers room ((key, v) :: ms) ↔
      PlainPoints key ∧ Admitted room v ∧ AdmittedMembers room ms := by
  constructor
  · rintro ⟨hn, hd, hs⟩
    rw [nestingMembers, Nat.max_le] at hn
    exact ⟨hs.1, ⟨hn.1, hd.1, hs.2.1⟩, ⟨hn.2, hd.2, hs.2.2⟩⟩
  · rintro ⟨hkey, ⟨hn, hd, hs⟩, ⟨hns, hds, hss⟩⟩
    refine ⟨?_, ?_, ?_⟩
    · exact Nat.max_le.mpr ⟨hn, hns⟩
    · exact ⟨hd, hds⟩
    · exact ⟨hkey, hs, hss⟩

theorem admitted_array : Admitted (room + 1) (.array items) ↔ AdmittedItems room items := by
  constructor
  · rintro ⟨hn, hd, hs⟩
    exact ⟨Nat.le_of_succ_le_succ hn, hd, hs⟩
  · rintro ⟨hn, hd, hs⟩
    refine ⟨?_, ?_, ?_⟩
    · exact Nat.succ_le_succ hn
    · exact hd
    · exact hs

theorem admitted_object :
    Admitted (room + 1) (.object members) ↔
      (members.map Prod.fst).Nodup ∧ AdmittedMembers room members := by
  constructor
  · rintro ⟨hn, hd, hs⟩
    exact ⟨hd.1, Nat.le_of_succ_le_succ hn, hd.2, hs⟩
  · rintro ⟨hkeys, hn, hd, hs⟩
    refine ⟨?_, ?_, ?_⟩
    · exact Nat.succ_le_succ hn
    · exact ⟨hkeys, hd⟩
    · exact hs

theorem not_admitted_zero (tree : JsonValue (List Nat)) : ¬Admitted 0 tree := by
  rintro ⟨hn, -, -⟩
  cases tree <;> simp [JsonValue.nesting] at hn

-- Induction over items and members

theorem ItemsText.induct {motive : ∀ cs items, ItemsText cs items → Prop}
    (last : ∀ {before cs after v} (hb : IsWs before) (hv : ValueText cs v) (ha : IsWs after),
      motive _ _ (.last hb hv ha))
    (more : ∀ {before cs after v rest vs} (hb : IsWs before) (hv : ValueText cs v) (ha : IsWs after)
      (hs : ItemsText rest vs), motive rest vs hs → motive _ _ (.more hb hv ha hs)) :
    ∀ {cs items} (h : ItemsText cs items), motive cs items h
  | _, _, .last hb hv ha => last hb hv ha
  | _, _, .more hb hv ha hs => more hb hv ha hs (ItemsText.induct last more hs)

theorem MembersText.induct {motive : ∀ cs members, MembersText cs members → Prop}
    (last : ∀ {before ks key w w' cs v after} (hb : IsWs before) (hk : StringText ks key)
      (hw : IsWs w) (hw' : IsWs w') (hv : ValueText cs v) (ha : IsWs after),
      motive _ _ (.last hb hk hw hw' hv ha))
    (more : ∀ {before ks key w w' cs v after rest ms} (hb : IsWs before) (hk : StringText ks key)
      (hw : IsWs w) (hw' : IsWs w') (hv : ValueText cs v) (ha : IsWs after)
      (hs : MembersText rest ms), motive rest ms hs → motive _ _ (.more hb hk hw hw' hv ha hs)) :
    ∀ {cs members} (h : MembersText cs members), motive cs members h
  | _, _, .last hb hk hw hw' hv ha => last hb hk hw hw' hv ha
  | _, _, .more hb hk hw hw' hv ha hs => more hb hk hw hw' hv ha hs (MembersText.induct last more hs)

theorem isWs_append (hw : IsWs w) (hw' : IsWs w') : IsWs (w ++ w') := by
  intro c hc
  rcases List.mem_append.mp hc with hc | hc
  · exact hw c hc
  · exact hw' c hc

theorem ItemsText.ws (h : ItemsText cs trees) (hw : IsWs w) : ItemsText (w ++ cs) trees := by
  cases h with
  | last hb hv ha =>
    rw [← append_assoc]
    exact .last (isWs_append hw hb) hv ha
  | more hb hv ha hs =>
    rw [← append_assoc]
    exact .more (isWs_append hw hb) hv ha hs

theorem MembersText.ws (h : MembersText cs trees) (hw : IsWs w) : MembersText (w ++ cs) trees := by
  cases h with
  | last hb hk hw' hw'' hv ha =>
    rw [← append_assoc]
    exact .last (isWs_append hw hb) hk hw' hw'' hv ha
  | more hb hk hw' hw'' hv ha hs =>
    rw [← append_assoc]
    exact .more (isWs_append hw hb) hk hw' hw'' hv ha hs

-- What stands in front

/-- A front byte that starts a value: no white space, and no bracket or brace that closes. -/
def Opens (b : UInt8) : Prop := isWhitespace b = false ∧ b ≠ char ']' ∧ b ≠ char '\x7d'

instance (b : UInt8) : Decidable (Opens b) := inferInstanceAs (Decidable (_ ∧ _))

theorem numberText_front (h : NumberText cs) :
    ∃ c tail, cs = c :: tail ∧ c.toNat < 0x80 ∧ (c = '-' ∨ DigitChar c) := by
  cases h with
  | @number minus int frac exp hminus hint hfrac hexp =>
    rcases hminus with rfl | rfl
    · cases hint with
      | zero => exact ⟨'0', _, rfl, by decide, .inr ⟨by decide, by decide⟩⟩
      | @digits c ds hc hds =>
        refine ⟨c, _, rfl, ascii_of_nonzero hc, .inr ⟨?_, hc.2⟩⟩
        exact Nat.le_trans (by decide : 48 ≤ 49) hc.1
    · exact ⟨'-', _, rfl, by decide, .inl rfl⟩

theorem opens_numberFront (hascii : c.toNat < 0x80) (h : c = '-' ∨ DigitChar c) : Opens (char c) := by
  rcases h with rfl | h
  · decide
  · have hc := digitChar_iff.mp h
    refine ⟨?_, ?_, ?_⟩
    · by_contra hws
      obtain ⟨d, hd, heq⟩ := exists_of_isWhitespace (Bool.not_eq_false _ ▸ hws)
      obtain rfl := char_inj hascii (ascii_of_ws hd) heq
      rcases hd with rfl | rfl | rfl | rfl
      all_goals exact absurd hc.1 (by decide)
    all_goals
      intro heq
      obtain rfl := char_inj hascii (by decide) heq
      exact absurd hc.2 (by decide)

theorem valueText_front (h : ValueText cs v) : ∃ b tail, encode cs = b :: tail ∧ Opens b := by
  cases h with
  | null => exact ⟨char 'n', _, encode_ascii (by decide), by decide⟩
  | true => exact ⟨char 't', _, encode_ascii (by decide), by decide⟩
  | false => exact ⟨char 'f', _, encode_ascii (by decide), by decide⟩
  | number h =>
    obtain ⟨c, tail, rfl, hascii, hc⟩ := numberText_front h
    exact ⟨char c, encode tail, encode_ascii hascii, opens_numberFront hascii hc⟩
  | string h =>
    cases h with
    | string h => exact ⟨char '"', _, encode_ascii (by decide), by decide⟩
  | emptyArray | array => exact ⟨char '[', _, encode_ascii (by decide), by decide⟩
  | emptyObject | object => exact ⟨char '\x7b', _, encode_ascii (by decide), by decide⟩

theorem isWs_nil : IsWs [] := by
  intro c hc
  cases hc

/-- White space, a comma and a closing bracket end a number. -/
theorem delimited_ws (hw : IsWs w) (hrest : Delimited rest) : Delimited (encode w ++ rest) := by
  cases w with
  | nil => exact hrest
  | cons c w => ?_
  obtain ⟨hc, -⟩ := List.forall_mem_cons.mp hw
  rw [encode_ascii (ascii_of_ws hc)]
  rintro b ⟨⟩
  rcases hc with rfl | rfl | rfl | rfl <;> decide

theorem delimited_cons (h : isDigit b = false ∧ b ≠ char '.' ∧ b ≠ char 'e' ∧ b ≠ char 'E') :
    Delimited (b :: rest) := by
  rintro a ⟨⟩
  exact h

theorem skipWhitespace_front (hw : IsWs w) (h : encode cs = b :: tail) (hb : isWhitespace b = false) :
    skipWhitespace (encode w ++ (encode cs ++ rest)) = b :: (tail ++ rest) := by
  rw [skipWhitespace_ws hw, h, cons_append, skipWhitespace_cons hb]

-- Arrays

/-- The parser of items reads every value that it should take. -/
def Complete (parseItem : Bytes → Parse (JsonValue Bytes × Bytes)) (room : Nat) : Prop :=
  ∀ w cs tree rest, IsWs w → ValueText cs tree → Admitted room tree → Delimited rest →
    parseItem (encode w ++ (encode cs ++ rest)) = .ok (tree.map encodePoints, rest)

/-- And what it reads is a value that it should take. -/
def Sound (parseItem : Bytes → Parse (JsonValue Bytes × Bytes)) (room : Nat) : Prop :=
  ∀ bytes v rest, parseItem bytes = .ok (v, rest) →
    ∃ w cs tree, IsWs w ∧ ValueText cs tree ∧ Admitted room tree ∧
      bytes = encode w ++ (encode cs ++ rest) ∧ v = tree.map encodePoints

section
variable {parseItem : Bytes → Parse (JsonValue Bytes × Bytes)} {room : Nat}

theorem parseArrayLoop_step (hread : parseItem (b :: tail) = .ok (item, rest))
    (hnext : skipWhitespace rest = c :: rest') :
    parseArrayLoop parseItem (rounds + 1) items (b :: tail) =
      if c = char ']' then .ok (.array (items ++ [item]), rest')
      else if c = char ',' then
        parseArrayLoop parseItem rounds (items ++ [item]) (skipWhitespace rest')
      else jsonError rest' "expected ',' or ']' in array" := by
  simp only [parseArrayLoop, hread, bind, Except.bind, hnext]
  rfl

theorem parseArrayLoop_item (hitem : Complete parseItem room) (hb : IsWs before)
    (hv : ValueText cs v) (hadm : Admitted room v) (hc : isWhitespace c = false)
    (hd : isDigit c = false ∧ c ≠ char '.' ∧ c ≠ char 'e' ∧ c ≠ char 'E') (ha : IsWs after) :
    parseArrayLoop parseItem (rounds + 1) items
        (skipWhitespace (encode before ++ (encode cs ++ (encode after ++ c :: rest)))) =
      if c = char ']' then .ok (.array (items ++ [v.map encodePoints]), rest)
      else if c = char ',' then
        parseArrayLoop parseItem rounds (items ++ [v.map encodePoints]) (skipWhitespace rest)
      else jsonError rest "expected ',' or ']' in array" := by
  obtain ⟨b, tail, hcs, hws, -, -⟩ := valueText_front hv
  have hread := hitem [] cs v (encode after ++ c :: rest) isWs_nil hv hadm
    (delimited_ws ha (delimited_cons hd))
  have hnext : skipWhitespace (encode after ++ c :: rest) = c :: rest := by
    rw [skipWhitespace_ws ha, skipWhitespace_cons hc]
  rw [hcs] at hread
  rw [skipWhitespace_front hb hcs hws]
  exact parseArrayLoop_step hread hnext

theorem encode_comma (cs : List Char) : encode (',' :: cs) = char ',' :: encode cs :=
  encode_ascii (by decide)

theorem parseArrayLoop_complete (items : List (JsonValue Bytes)) (hitem : Complete parseItem room)
    (h : ItemsText cs trees) (hadm : AdmittedItems room trees)
    (hrounds : (skipWhitespace (encode cs ++ char ']' :: rest)).length < rounds) :
    parseArrayLoop parseItem rounds items (skipWhitespace (encode cs ++ char ']' :: rest)) =
      .ok (.array (items ++ mapItems encodePoints trees), rest) := by
  induction h using ItemsText.induct generalizing rounds items with
  | last hb hv ha =>
    obtain ⟨rounds, rfl⟩ := Nat.exists_eq_add_one_of_ne_zero (Nat.ne_zero_of_lt hrounds)
    obtain ⟨hadm, -⟩ := admittedItems_cons.mp hadm
    rw [encode_append, encode_append, append_assoc, append_assoc,
      parseArrayLoop_item hitem hb hv hadm (by decide) (by decide) ha, if_pos rfl]
    rfl
  | more hb hv ha hs ih =>
    obtain ⟨rounds, rfl⟩ := Nat.exists_eq_add_one_of_ne_zero (Nat.ne_zero_of_lt hrounds)
    obtain ⟨hadm, hadms⟩ := admittedItems_cons.mp hadm
    obtain ⟨b, tail, hcs, hws, -, -⟩ := valueText_front hv
    simp only [encode_append, encode_comma, append_assoc, cons_append] at hrounds ⊢
    rw [skipWhitespace_front hb hcs hws] at hrounds
    simp only [length_append, length_cons] at hrounds
    rw [parseArrayLoop_item hitem hb hv hadm (by decide) (by decide) ha, if_neg (by decide),
      if_pos rfl, ih _ hadms ?_]
    · simp [mapItems]
    · refine Nat.lt_of_le_of_lt (skipWhitespace_length _) ?_
      simp only [length_append, length_cons]
      omega

theorem itemsText_front (h : ItemsText cs trees) (rest : Bytes) :
    ∃ b tail, skipWhitespace (encode cs ++ rest) = b :: tail ∧ b ≠ char ']' := by
  cases h with
  | last hb hv ha | more hb hv ha hs =>
    obtain ⟨b, tail, hcs, hws, hne, -⟩ := valueText_front hv
    rw [encode_append, encode_append, append_assoc, append_assoc, skipWhitespace_front hb hcs hws]
    exact ⟨b, _, rfl, hne⟩

theorem parseArray_complete (hitem : Complete parseItem room) (h : ItemsText cs trees)
    (hadm : AdmittedItems room trees) :
    parseArray parseItem (encode cs ++ char ']' :: rest) =
      .ok (.array (mapItems encodePoints trees), rest) := by
  obtain ⟨b, tail, hfront, hne⟩ := itemsText_front h (char ']' :: rest)
  have hrounds : (skipWhitespace (encode cs ++ char ']' :: rest)).length < tail.length + 2 := by
    rw [hfront]
    exact Nat.lt_succ_self _
  have hloop := parseArrayLoop_complete [] hitem h hadm hrounds
  rw [hfront] at hloop
  simp only [parseArray, hfront, if_neg hne, hloop, List.nil_append]

theorem parseArray_empty (hw : IsWs w) :
    parseArray parseItem (encode w ++ char ']' :: rest) = .ok (.array [], rest) := by
  have hfront : skipWhitespace (encode w ++ char ']' :: rest) = char ']' :: rest := by
    rw [skipWhitespace_ws hw, skipWhitespace_cons (by decide)]
  simp only [parseArray, hfront, if_true]

theorem parseArrayLoop_read (h : parseArrayLoop parseItem (rounds + 1) items bytes = .ok (v, rest)) :
    ∃ item tail c tail', parseItem bytes = .ok (item, tail) ∧ skipWhitespace tail = c :: tail' ∧
      (c = char ']' ∧ v = .array (items ++ [item]) ∧ tail' = rest ∨
        c = char ',' ∧ parseArrayLoop parseItem rounds (items ++ [item]) (skipWhitespace tail') =
          .ok (v, rest)) := by
  cases bytes with
  | nil => simp [parseArrayLoop, jsonError] at h
  | cons b bytes => ?_
  obtain ⟨⟨item, tail⟩, hread, hnext⟩ := exists_of_bind h
  cases htail : skipWhitespace tail with
  | nil => simp [htail, jsonError] at hnext
  | cons c tail' => ?_
  refine ⟨item, tail, c, tail', hread, htail, ?_⟩
  rw [parseArrayLoop_step hread htail] at h
  split at h
  · rename_i hc
    simp only [Except.ok.injEq, Prod.mk.injEq] at h
    exact .inl ⟨hc, h.1.symm, h.2⟩
  split at h
  · rename_i hc
    exact .inr ⟨hc, h⟩
  · simp [jsonError] at h

theorem parseArrayLoop_sound (hitem : Sound parseItem room)
    (h : parseArrayLoop parseItem rounds items bytes = .ok (v, rest)) :
    ∃ cs trees, ItemsText cs trees ∧ AdmittedItems room trees ∧
      bytes = encode cs ++ char ']' :: rest ∧ v = .array (items ++ mapItems encodePoints trees) := by
  induction rounds generalizing items bytes with
  | zero => simp [parseArrayLoop] at h
  | succ rounds ih =>
    obtain ⟨item, tail, c, tail', hread, hnext, hc⟩ := parseArrayLoop_read h
    obtain ⟨before, cs, tree, hb, hv, hadm, rfl, rfl⟩ := hitem _ _ _ hread
    obtain ⟨after, ha, htail⟩ := skipWhitespace_sound tail
    rw [hnext] at htail
    subst htail
    rcases hc with ⟨rfl, rfl, rfl⟩ | ⟨rfl, hloop⟩
    · refine ⟨_, [tree], .last hb hv ha, admittedItems_cons.mpr ⟨hadm, admittedItems_nil _⟩, ?_, rfl⟩
      simp
    · obtain ⟨ds, trees, hds, hadms, hbytes, rfl⟩ := ih hloop
      obtain ⟨w, hw, htail'⟩ := skipWhitespace_sound tail'
      rw [hbytes] at htail'
      refine ⟨_, tree :: trees, .more hb hv ha (hds.ws hw), admittedItems_cons.mpr ⟨hadm, hadms⟩, ?_, ?_⟩
      · rw [htail']
        simp [encode_comma, -encode_cons]
      · simp [mapItems]

theorem parseArray_sound (hitem : Sound parseItem room) (h : parseArray parseItem bytes = .ok (v, rest)) :
    (∃ w, IsWs w ∧ bytes = encode w ++ char ']' :: rest ∧ v = .array []) ∨
      ∃ cs trees, ItemsText cs trees ∧ AdmittedItems room trees ∧
        bytes = encode cs ++ char ']' :: rest ∧ v = .array (mapItems encodePoints trees) := by
  obtain ⟨w, hw, hbytes⟩ := skipWhitespace_sound bytes
  unfold parseArray at h
  cases hfront : skipWhitespace bytes with
  | nil => simp [hfront, jsonError] at h
  | cons b tail => ?_
  rw [hfront] at hbytes h
  dsimp only at h
  split at h
  · rename_i hb
    obtain ⟨rfl, rfl⟩ : .array [] = v ∧ tail = rest := by simpa using h
    exact .inl ⟨w, hw, by rw [hbytes, hb], rfl⟩
  · obtain ⟨cs, trees, hcs, hadm, htail, rfl⟩ := parseArrayLoop_sound hitem h
    refine .inr ⟨w ++ cs, trees, hcs.ws hw, hadm, ?_, rfl⟩
    rw [hbytes, htail, encode_append, append_assoc]

/-- The parser of items is safe and does not go back. -/
def Steady (parseItem : Bytes → Parse (JsonValue Bytes × Bytes)) : Prop :=
  ∀ bytes, Safe (parseItem bytes) ∧ ∀ v rest, parseItem bytes = .ok (v, rest) → rest.length ≤ bytes.length

theorem parseArrayLoop_safe (hitem : Steady parseItem) (hrounds : bytes.length < rounds) :
    Safe (parseArrayLoop parseItem rounds items bytes) := by
  induction rounds generalizing items bytes with
  | zero => omega
  | succ rounds ih =>
    cases bytes with
    | nil => exact safe_jsonError _ _
    | cons b bytes => ?_
    refine Safe.bind (hitem (b :: bytes)).1 ?_
    rintro ⟨item, tail⟩ hread
    have hlen := (hitem (b :: bytes)).2 item tail hread
    have hskip := skipWhitespace_length tail
    dsimp only
    split
    · exact safe_jsonError _ _
    rename_i c tail' hnext
    rw [hnext, length_cons] at hskip
    split
    · exact safe_ok _
    split
    · refine ih (Nat.lt_of_le_of_lt (skipWhitespace_length tail') ?_)
      omega
    · exact safe_jsonError _ _

theorem parseArray_safe (hitem : Steady parseItem) (bytes : Bytes) : Safe (parseArray parseItem bytes) := by
  unfold parseArray
  split
  · exact safe_jsonError _ _
  split
  · exact safe_ok _
  · exact parseArrayLoop_safe hitem (Nat.lt_succ_self _)

-- Objects

theorem objectHasKey_iff : objectHasKey members key = true ↔ key ∈ members.map Prod.fst := by
  simp [objectHasKey]

theorem parseObjectLoop_step (hkey : parseString (b :: tail) = .ok (key, rest))
    (hcolon : skipWhitespace rest = char ':' :: rest')
    (hread : parseItem rest' = .ok (value, rest''))
    (hfresh : key ∉ members.map Prod.fst) (hnext : skipWhitespace rest'' = c :: last) :
    parseObjectLoop parseItem (rounds + 1) members (b :: tail) =
      if c = char '\x7d' then .ok (.object (members ++ [(key, value)]), last)
      else if c = char ',' then
        parseObjectLoop parseItem rounds (members ++ [(key, value)]) (skipWhitespace last)
      else jsonError last "expected ',' or '\x7d' in object" := by
  have hkeys : objectHasKey members key = false := by
    rw [← Bool.not_eq_true, objectHasKey_iff]
    exact hfresh
  simp only [parseObjectLoop, hkey, bind, Except.bind, hcolon, ne_eq, not_true_eq_false, if_false,
    hread, hkeys, hnext]
  rfl

theorem stringText_front (h : StringText ks key) : ∃ tail, encode ks = char '"' :: tail := by
  cases h with
  | string h => exact ⟨_, encode_quote _⟩

theorem parseObjectLoop_member (hitem : Complete parseItem room) (hb : IsWs before)
    (hk : StringText ks key) (hkey : PlainPoints key) (hw : IsWs w) (hw' : IsWs w')
    (hv : ValueText cs v) (hadm : Admitted room v) (hc : isWhitespace c = false)
    (hd : isDigit c = false ∧ c ≠ char '.' ∧ c ≠ char 'e' ∧ c ≠ char 'E') (ha : IsWs after)
    (hfresh : encodePoints key ∉ members.map Prod.fst) :
    parseObjectLoop parseItem (rounds + 1) members
        (skipWhitespace (encode before ++ (encode ks ++ (encode w ++ char ':' ::
          (encode w' ++ (encode cs ++ (encode after ++ c :: rest))))))) =
      if c = char '\x7d' then
        .ok (.object (members ++ [(encodePoints key, v.map encodePoints)]), rest)
      else if c = char ',' then
        parseObjectLoop parseItem rounds (members ++ [(encodePoints key, v.map encodePoints)])
          (skipWhitespace rest)
      else jsonError rest "expected ',' or '\x7d' in object" := by
  obtain ⟨tail, hks⟩ := stringText_front hk
  have hstring : ∀ bytes, parseString (encode ks ++ bytes) = .ok (encodePoints key, bytes) :=
    fun _ => parseString_complete (plainString_iff.mpr ⟨hk, hkey⟩)
  have hcolon : ∀ bytes, skipWhitespace (encode w ++ char ':' :: bytes) = char ':' :: bytes := by
    intro bytes
    rw [skipWhitespace_ws hw, skipWhitespace_cons (by decide)]
  have hread := hitem w' cs v (encode after ++ c :: rest) hw' hv hadm (delimited_ws ha (delimited_cons hd))
  have hnext : skipWhitespace (encode after ++ c :: rest) = c :: rest := by
    rw [skipWhitespace_ws ha, skipWhitespace_cons hc]
  rw [hks] at hstring
  rw [skipWhitespace_front hb hks (by decide)]
  exact parseObjectLoop_step (hstring _) (hcolon _) hread hfresh hnext

theorem encode_colon (cs : List Char) : encode (':' :: cs) = char ':' :: encode cs :=
  encode_ascii (by decide)

theorem fresh_of_nodup (h : (xs ++ k :: ys).Nodup) : k ∉ xs := by
  have hk := (List.nodup_cons.mp (List.nodup_middle.mp h)).1
  intro hmem
  exact hk (List.mem_append_left ys hmem)

theorem parseObjectLoop_complete (members : List (Bytes × JsonValue Bytes))
    (hitem : Complete parseItem room) (h : MembersText cs trees) (hadm : AdmittedMembers room trees)
    (hkeys : (members.map Prod.fst ++ (trees.map Prod.fst).map encodePoints).Nodup)
    (hrounds : (skipWhitespace (encode cs ++ char '\x7d' :: rest)).length < rounds) :
    parseObjectLoop parseItem rounds members (skipWhitespace (encode cs ++ char '\x7d' :: rest)) =
      .ok (.object (members ++ mapMembers encodePoints trees), rest) := by
  induction h using MembersText.induct generalizing rounds members with
  | last hb hk hw hw' hv ha =>
    obtain ⟨rounds, rfl⟩ := Nat.exists_eq_add_one_of_ne_zero (Nat.ne_zero_of_lt hrounds)
    obtain ⟨hkey, hadm, -⟩ := admittedMembers_cons.mp hadm
    simp only [encode_append, encode_colon, append_assoc, cons_append]
    rw [parseObjectLoop_member hitem hb hk hkey hw hw' hv hadm (by decide) (by decide) ha
      (fresh_of_nodup hkeys), if_pos rfl]
    rfl
  | more hb hk hw hw' hv ha hs ih =>
    obtain ⟨rounds, rfl⟩ := Nat.exists_eq_add_one_of_ne_zero (Nat.ne_zero_of_lt hrounds)
    obtain ⟨hkey, hadm, hadms⟩ := admittedMembers_cons.mp hadm
    obtain ⟨tail, hks⟩ := stringText_front hk
    simp only [encode_append, encode_colon, encode_comma, append_assoc, cons_append] at hrounds ⊢
    rw [skipWhitespace_front hb hks (by decide)] at hrounds
    simp only [length_append, length_cons] at hrounds
    rw [parseObjectLoop_member hitem hb hk hkey hw hw' hv hadm (by decide) (by decide) ha
      (fresh_of_nodup hkeys), if_neg (by decide), if_pos rfl, ih _ hadms ?_ ?_]
    · simp [mapMembers]
    · simpa using hkeys
    · refine Nat.lt_of_le_of_lt (skipWhitespace_length _) ?_
      simp only [length_append, length_cons]
      omega

theorem membersText_front (h : MembersText cs trees) (rest : Bytes) :
    ∃ tail, skipWhitespace (encode cs ++ rest) = char '"' :: tail := by
  cases h with
  | last hb hk hw hw' hv ha | more hb hk hw hw' hv ha hs =>
    obtain ⟨tail, hks⟩ := stringText_front hk
    rw [encode_append, encode_append, append_assoc, append_assoc,
      skipWhitespace_front hb hks (by decide)]
    exact ⟨_, rfl⟩

theorem scalar_of_stringText (h : StringText ks key) (hkey : PlainPoints key) : ∀ p ∈ key, Scalar p := by
  cases plainString_iff.mpr ⟨h, hkey⟩ with
  | string hcs => exact hcs.plainPoints

theorem keys_scalar (h : MembersText cs trees) (hadm : AdmittedMembers room trees) :
    ∀ key ∈ trees.map Prod.fst, ∀ p ∈ key, Scalar p := by
  induction h using MembersText.induct with
  | last hb hk hw hw' hv ha =>
    obtain ⟨hkey, -, -⟩ := admittedMembers_cons.mp hadm
    simpa using scalar_of_stringText hk hkey
  | more hb hk hw hw' hv ha hs ih =>
    obtain ⟨hkey, -, hadms⟩ := admittedMembers_cons.mp hadm
    exact List.forall_mem_cons.mpr ⟨scalar_of_stringText hk hkey, ih hadms⟩

theorem parseObject_complete (hitem : Complete parseItem room) (h : MembersText cs trees)
    (hkeys : (trees.map Prod.fst).Nodup) (hadm : AdmittedMembers room trees) :
    parseObject parseItem (encode cs ++ char '\x7d' :: rest) =
      .ok (.object (mapMembers encodePoints trees), rest) := by
  obtain ⟨tail, hfront⟩ := membersText_front h (char '\x7d' :: rest)
  have hscalar := keys_scalar h hadm
  have hnodup : ((trees.map Prod.fst).map encodePoints).Nodup :=
    List.Nodup.map_on (fun x hx y hy => encodePoints_injOn (hscalar x hx) (hscalar y hy)) hkeys
  have hrounds : (skipWhitespace (encode cs ++ char '\x7d' :: rest)).length < tail.length + 2 := by
    rw [hfront]
    exact Nat.lt_succ_self _
  have hloop := parseObjectLoop_complete [] hitem h hadm hnodup hrounds
  have hne : char '"' ≠ char '\x7d' := by decide
  rw [hfront] at hloop
  simp only [parseObject, hfront, if_neg hne, hloop, List.nil_append]

theorem parseObject_empty (hw : IsWs w) :
    parseObject parseItem (encode w ++ char '\x7d' :: rest) = .ok (.object [], rest) := by
  have hfront : skipWhitespace (encode w ++ char '\x7d' :: rest) = char '\x7d' :: rest := by
    rw [skipWhitespace_ws hw, skipWhitespace_cons (by decide)]
  simp only [parseObject, hfront, if_true]

theorem parseObjectLoop_read (h : parseObjectLoop parseItem (rounds + 1) members bytes = .ok (v, rest)) :
    ∃ key tail tail' value tail'' c last, parseString bytes = .ok (key, tail) ∧
      skipWhitespace tail = char ':' :: tail' ∧ parseItem tail' = .ok (value, tail'') ∧
      key ∉ members.map Prod.fst ∧ skipWhitespace tail'' = c :: last ∧
      (c = char '\x7d' ∧ v = .object (members ++ [(key, value)]) ∧ last = rest ∨
        c = char ',' ∧ parseObjectLoop parseItem rounds (members ++ [(key, value)])
          (skipWhitespace last) = .ok (v, rest)) := by
  cases bytes with
  | nil => simp [parseObjectLoop, jsonError] at h
  | cons b bytes => ?_
  obtain ⟨⟨key, tail⟩, hkey, hbody⟩ := exists_of_bind h
  cases hcolon : skipWhitespace tail with
  | nil => simp [hcolon, jsonError] at hbody
  | cons d tail' => ?_
  simp only [hcolon] at hbody
  by_cases hd : d = char ':'
  · subst hd
    obtain ⟨⟨value, tail''⟩, hread, hbody'⟩ := exists_of_bind hbody
    by_cases hhas : objectHasKey members key = true
    · simp [hhas] at hbody'
    cases hnext : skipWhitespace tail'' with
    | nil => simp [hhas, hnext, jsonError] at hbody'
    | cons c last => ?_
    rw [objectHasKey_iff] at hhas
    rw [parseObjectLoop_step hkey hcolon hread hhas hnext] at h
    refine ⟨key, tail, tail', value, tail'', c, last, hkey, hcolon, hread, hhas, hnext, ?_⟩
    split at h
    · rename_i hc
      simp only [Except.ok.injEq, Prod.mk.injEq] at h
      exact .inl ⟨hc, h.1.symm, h.2⟩
    split at h
    · rename_i hc
      exact .inr ⟨hc, h⟩
    · simp [jsonError] at h
  · simp [hd, jsonError] at hbody

theorem parseObjectLoop_sound (members : List (Bytes × JsonValue Bytes))
    (hitem : Sound parseItem room) (hmembers : (members.map Prod.fst).Nodup)
    (h : parseObjectLoop parseItem rounds members bytes = .ok (v, rest)) :
    ∃ cs trees, MembersText cs trees ∧ AdmittedMembers room trees ∧
      (members.map Prod.fst ++ (trees.map Prod.fst).map encodePoints).Nodup ∧
      bytes = encode cs ++ char '\x7d' :: rest ∧
      v = .object (members ++ mapMembers encodePoints trees) := by
  induction rounds generalizing members bytes with
  | zero => simp [parseObjectLoop] at h
  | succ rounds ih =>
    obtain ⟨key, tail, tail', value, tail'', c, last, hkey, hcolon, hread, hfresh, hnext, hc⟩ :=
      parseObjectLoop_read h
    obtain ⟨ks, points, hks, rfl, rfl⟩ := parseString_sound hkey
    obtain ⟨hstring, hplain⟩ := plainString_iff.mp hks
    obtain ⟨w, hw, htail⟩ := skipWhitespace_sound tail
    obtain ⟨w', cs, tree, hw', hv, hadm, hvalue, rfl⟩ := hitem _ _ _ hread
    obtain ⟨after, ha, htail''⟩ := skipWhitespace_sound tail''
    rw [hcolon, hvalue] at htail
    rw [hnext] at htail''
    rw [htail''] at htail
    have hnodup : ((members ++ [(encodePoints points, tree.map encodePoints)]).map Prod.fst).Nodup := by
      rw [List.map_append]
      exact List.nodup_append_comm.mpr (List.nodup_cons.mpr ⟨hfresh, hmembers⟩)
    rcases hc with ⟨rfl, rfl, rfl⟩ | ⟨rfl, hloop⟩
    · refine ⟨_, [(points, tree)], .last isWs_nil hstring hw hw' hv ha,
        admittedMembers_cons.mpr ⟨hplain, hadm, admittedMembers_nil _⟩, ?_, ?_, rfl⟩
      · simpa using hnodup
      · rw [htail]
        simp [encode_colon, -encode_cons]
    · obtain ⟨ds, trees, hds, hadms, hkeys, hbytes, rfl⟩ := ih _ hnodup hloop
      obtain ⟨w'', hw'', hlast⟩ := skipWhitespace_sound last
      rw [hbytes] at hlast
      rw [hlast] at htail
      refine ⟨_, (points, tree) :: trees,
        .more isWs_nil hstring hw hw' hv ha (hds.ws hw''),
        admittedMembers_cons.mpr ⟨hplain, hadm, hadms⟩, ?_, ?_, ?_⟩
      · simpa using hkeys
      · rw [htail]
        simp [encode_colon, encode_comma, -encode_cons]
      · simp [mapMembers]

theorem parseObject_sound (hitem : Sound parseItem room) (h : parseObject parseItem bytes = .ok (v, rest)) :
    (∃ w, IsWs w ∧ bytes = encode w ++ char '\x7d' :: rest ∧ v = .object []) ∨
      ∃ cs trees, MembersText cs trees ∧ (trees.map Prod.fst).Nodup ∧ AdmittedMembers room trees ∧
        bytes = encode cs ++ char '\x7d' :: rest ∧ v = .object (mapMembers encodePoints trees) := by
  obtain ⟨w, hw, hbytes⟩ := skipWhitespace_sound bytes
  unfold parseObject at h
  cases hfront : skipWhitespace bytes with
  | nil => simp [hfront, jsonError] at h
  | cons b tail => ?_
  rw [hfront] at hbytes h
  dsimp only at h
  split at h
  · rename_i hb
    obtain ⟨rfl, rfl⟩ : .object [] = v ∧ tail = rest := by simpa using h
    exact .inl ⟨w, hw, by rw [hbytes, hb], rfl⟩
  obtain ⟨cs, trees, hcs, hadm, hkeys, htail, rfl⟩ :=
    parseObjectLoop_sound [] hitem List.nodup_nil h
  refine .inr ⟨w ++ cs, trees, hcs.ws hw, List.Nodup.of_map _ hkeys, hadm, ?_, rfl⟩
  rw [hbytes, htail, encode_append, append_assoc]

theorem parseString_length (h : parseString bytes = .ok (out, rest)) : rest.length ≤ bytes.length := by
  obtain ⟨cs, points, -, rfl, -⟩ := parseString_sound h
  simp

theorem parseObjectLoop_safe (hitem : Steady parseItem) (hrounds : bytes.length < rounds) :
    Safe (parseObjectLoop parseItem rounds members bytes) := by
  induction rounds generalizing members bytes with
  | zero => omega
  | succ rounds ih =>
    cases bytes with
    | nil => exact safe_jsonError _ _
    | cons b bytes => ?_
    refine Safe.bind (parseString_safe (b :: bytes)) ?_
    rintro ⟨key, tail⟩ hkey
    have hlen := parseString_length hkey
    have hskip := skipWhitespace_length tail
    dsimp only
    split
    · exact safe_jsonError _ _
    rename_i c tail' hcolon
    rw [hcolon, length_cons] at hskip
    split
    · exact safe_jsonError _ _
    refine Safe.bind (hitem tail').1 ?_
    rintro ⟨value, tail''⟩ hread
    have hlen' := (hitem tail').2 value tail'' hread
    have hskip' := skipWhitespace_length tail''
    split
    · exact .inr ⟨_, _, _, rfl⟩
    split
    · exact safe_jsonError _ _
    rename_i d last hnext
    rw [hnext, length_cons] at hskip'
    split
    · exact safe_ok _
    split
    · refine ih (Nat.lt_of_le_of_lt (skipWhitespace_length last) ?_)
      omega
    · exact safe_jsonError _ _

theorem parseObject_safe (hitem : Steady parseItem) (bytes : Bytes) :
    Safe (parseObject parseItem bytes) := by
  unfold parseObject
  split
  · exact safe_jsonError _ _
  split
  · exact safe_ok _
  · exact parseObjectLoop_safe hitem (Nat.lt_succ_self _)

end

-- Values

theorem consumeLiteral_of_append (word : String) (rest : Bytes) :
    consumeLiteral word (word.toList.map char ++ rest) = some rest := by
  simp [consumeLiteral]

theorem consumeLiteral_eq_some (h : consumeLiteral word bytes = some rest) :
    bytes = word.toList.map char ++ rest := by
  simp only [consumeLiteral] at h
  split at h
  · simp at h
  split at h
  · rename_i htake
    cases h
    calc bytes = bytes.take (word.toList.map char).length ++ bytes.drop (word.toList.map char).length :=
          (List.take_append_drop _ _).symm
      _ = word.toList.map char ++ bytes.drop (word.toList.map char).length := by rw [htake]
  · simp at h

theorem consumeLiteral_eq_none (h : word.toList.map char = d :: ds) (hne : c ≠ d) :
    consumeLiteral word (c :: rest) = none := by
  cases hsome : consumeLiteral word (c :: rest) with
  | none => rfl
  | some tail =>
    have hbytes := consumeLiteral_eq_some hsome
    rw [h] at hbytes
    exact absurd (List.cons.inj hbytes).1 hne

def parseLiteral (bytes : Bytes) : Parse (JsonValue Bytes × Bytes) :=
  match consumeLiteral "true" bytes with
  | some rest => .ok (.bool true, rest)
  | none =>
    match consumeLiteral "false" bytes with
    | some rest => .ok (.bool false, rest)
    | none =>
      match consumeLiteral "null" bytes with
      | some rest => .ok (.null, rest)
      | none => jsonError bytes "invalid value"

theorem parseValue_front (h : skipWhitespace text = c :: rest) :
    parseValue (room + 1) text =
      if c = char '\x7b' then parseObject (parseValue room) rest
      else if c = char '[' then parseArray (parseValue room) rest
      else if c = char '"' then
        (parseString (c :: rest)).map fun (text, rest) => (.string text, rest)
      else if c = char '-' ∨ char '0' ≤ c ∧ c ≤ char '9' then parseNumber (c :: rest)
      else parseLiteral (c :: rest) := by
  rw [parseValue, h]
  rfl

theorem map_char_true : "true".toList.map char = [char 't', char 'r', char 'u', char 'e'] := by decide

theorem map_char_false :
    "false".toList.map char = [char 'f', char 'a', char 'l', char 's', char 'e'] := by decide

theorem encode_true : encode ['t', 'r', 'u', 'e'] = "true".toList.map char := by decide

theorem encode_false : encode ['f', 'a', 'l', 's', 'e'] = "false".toList.map char := by decide

theorem encode_null : encode ['n', 'u', 'l', 'l'] = "null".toList.map char := by decide

theorem parseLiteral_true : parseLiteral (encode ['t', 'r', 'u', 'e'] ++ rest) = .ok (.bool true, rest) := by
  rw [encode_true]
  simp only [parseLiteral, consumeLiteral_of_append]

theorem parseLiteral_false :
    parseLiteral (encode ['f', 'a', 'l', 's', 'e'] ++ rest) = .ok (.bool false, rest) := by
  have htrue : consumeLiteral "true" ("false".toList.map char ++ rest) = none := by
    exact consumeLiteral_eq_none map_char_true (by decide)
  rw [encode_false]
  simp only [parseLiteral, htrue, consumeLiteral_of_append]

theorem parseLiteral_null : parseLiteral (encode ['n', 'u', 'l', 'l'] ++ rest) = .ok (.null, rest) := by
  have htrue : consumeLiteral "true" ("null".toList.map char ++ rest) = none := by
    exact consumeLiteral_eq_none map_char_true (by decide)
  have hfalse : consumeLiteral "false" ("null".toList.map char ++ rest) = none := by
    exact consumeLiteral_eq_none map_char_false (by decide)
  rw [encode_null]
  simp only [parseLiteral, htrue, hfalse, consumeLiteral_of_append]

theorem parseLiteral_sound (h : parseLiteral bytes = .ok (v, rest)) :
    ∃ cs tree, ValueText cs tree ∧ Admitted (room + 1) tree ∧ bytes = encode cs ++ rest ∧
      v = tree.map encodePoints := by
  unfold parseLiteral at h
  cases htrue : consumeLiteral "true" bytes with
  | some tail =>
    simp only [htrue, Except.ok.injEq, Prod.mk.injEq] at h
    obtain ⟨rfl, rfl⟩ := h
    refine ⟨_, _, .true, ⟨by simp [JsonValue.nesting], trivial, trivial⟩, ?_, rfl⟩
    rw [consumeLiteral_eq_some htrue, encode_true]
  | none =>
    cases hfalse : consumeLiteral "false" bytes with
    | some tail =>
      simp only [htrue, hfalse, Except.ok.injEq, Prod.mk.injEq] at h
      obtain ⟨rfl, rfl⟩ := h
      refine ⟨_, _, .false, ⟨by simp [JsonValue.nesting], trivial, trivial⟩, ?_, rfl⟩
      rw [consumeLiteral_eq_some hfalse, encode_false]
    | none =>
      cases hnull : consumeLiteral "null" bytes with
      | some tail => ?_
      | none => simp [htrue, hfalse, hnull, jsonError] at h
      simp only [htrue, hfalse, hnull, Except.ok.injEq, Prod.mk.injEq] at h
      obtain ⟨rfl, rfl⟩ := h
      refine ⟨_, _, .null, ⟨by simp [JsonValue.nesting], trivial, trivial⟩, ?_, rfl⟩
      rw [consumeLiteral_eq_some hnull, encode_null]

theorem parseLiteral_safe (bytes : Bytes) : Safe (parseLiteral bytes) := by
  unfold parseLiteral
  iterate 3
    split
    · exact safe_ok _
  · exact safe_jsonError _ _

theorem encodePoints_toNat (cs : List Char) : encodePoints (cs.map Char.toNat) = encode cs := by
  simp [encodePoints, List.map_map, Function.comp_def]

end Fisics.Json
