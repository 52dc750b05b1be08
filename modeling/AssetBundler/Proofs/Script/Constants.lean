/-
  AssetBundler.Proofs.Script.Constants
  ────────────────────────────────
  **WHERE A CONSTANT IS PUT IN.**

  A text in which a key has been replaced is cut at some occurrences of the
  key, and its pieces are joined again with the value.  Which occurrences these
  are depends on the characters beside them alone.  On the left a word
  character, a dollar sign and a dot keep the key from being replaced; on the
  right there must be a word boundary, which takes no notice of dollar signs.
  Where that makes no difference, the occurrences are those of the whole key:

    • `replaceKey_cuts` — the pieces, and the occurrences between them,
    • `Ordinary` — places at which an identifier ends where a word does,
    • `applyDefines_replaces_whole` — what putting in one constant does,
    • `dollar_is_replaced` — a key in the beginning of a longer identifier.
-/
import AssetBundler.Proofs.Text.Search
import AssetBundler.Script.Define
import Mathlib.Data.List.Infix

namespace AssetBundler.Script

open AssetBundler.Text

/-! ## §1. Occurrences of a key. -/

/-- An identifier. -/
def IsIdentifier (name : List Char) : Prop :=
  (∃ c ∈ name.head?, isIdentifierStart c = true) ∧ ∀ c ∈ name, isIdentifierPart c = true

/-- Identifiers with dots between them. -/
def IsPath (key : List Char) : Prop :=
  ∃ names : List (List Char), names ≠ [] ∧ (∀ name ∈ names, IsIdentifier name)
    ∧ key = ['.'].intercalate names

/-- **The whole key** stands at a place of a text: it belongs to no longer identifier, and is no member
of what stands before a dot. -/
structure Whole (key text : List Char) (place : Nat) : Prop where
  occurs : key <+: text.drop place
  before : ∀ c ∈ (text.take place).getLast?, isIdentifierPart c = false ∧ c ≠ '.'
  behind : ∀ c ∈ text[place + key.length]?, isIdentifierPart c = false

/-- The key stands at a place of a text, and the characters beside it let it be replaced. -/
structure Replaceable (key text : List Char) (place : Nat) : Prop where
  occurs : key <+: text.drop place
  before : ∀ c ∈ (text.take place).getLast?, mayPrecedeKey c = true
  behind : isBoundary key.getLast? (text.drop (place + key.length)) = true

/-- The places of a key before each of some pieces, the first at a given place. -/
def places (key : List Char) : Nat → List (List Char) → List Nat
  | _, [] => []
  | place, piece :: pieces => place :: places key (place + key.length + piece.length) pieces

/-- **A text is cut** at occurrences of a key and joined again with a value: at all occurrences from a
place on that can be replaced, but for those that begin inside of one that is replaced or right behind
it. -/
structure Cuts (start : Nat) (key value text result first : List Char)
    (pieces : List (List Char)) : Prop where
  text_eq : text = key.intercalate (first :: pieces)
  result_eq : result = value.intercalate (first :: pieces)
  mem_places : ∀ i, i ∈ places key first.length pieces ↔ (start ≤ i ∧ Replaceable key text i)
    ∧ ∀ j ∈ places key first.length pieces, j < i → j + key.length < i

/-! ## §2. Texts that are put together. -/

theorem intercalate_cons_cons_left (separator : List Char) (c : Char) (piece : List Char)
    (pieces : List (List Char)) :
    separator.intercalate ((c :: piece) :: pieces) = c :: separator.intercalate (piece :: pieces) := by
  cases pieces with
  | nil => rw [List.intercalate_singleton, List.intercalate_singleton]
  | cons second pieces =>
      rw [List.intercalate_cons_cons, List.intercalate_cons_cons, List.cons_append, List.cons_append]

theorem places_add (key : List Char) (d : Nat) : ∀ (place : Nat) (pieces : List (List Char)),
    places key (d + place) pieces = (places key place pieces).map (d + ·)
  | _, [] => rfl
  | place, piece :: pieces => by
      have hnext : d + place + key.length + piece.length = d + (place + key.length + piece.length) := by
        omega
      rw [places, places, hnext, places_add key d _ pieces, List.map_cons]

theorem le_of_mem_places {key : List Char} {i : Nat} : ∀ {place : Nat} {pieces : List (List Char)},
    i ∈ places key place pieces → place ≤ i
  | place, [], h => by cases h
  | place, piece :: pieces, h => by
      rcases List.mem_cons.mp h with rfl | h
      · exact le_rfl
      · have := le_of_mem_places h
        omega

/-- What stands at a place behind the start of a text stands as far behind a text before it. -/
theorem replaceable_append {key text : List Char} (hkey : key ≠ []) (before : List Char) {i : Nat}
    (hi : 0 < i) : Replaceable key (before ++ text) (before.length + i) ↔ Replaceable key text i := by
  have hdrop (k : Nat) : (before ++ text).drop (before.length + k) = text.drop k :=
    List.drop_length_add_append ..
  have hlast (h : key <+: text.drop i) :
      ((before ++ text).take (before.length + i)).getLast? = (text.take i).getLast? := by
    have hne : text.take i ≠ [] := by
      intro hnil
      have htext : text = [] := (List.take_eq_nil_iff.mp hnil).resolve_left (by omega)
      rw [htext, List.drop_nil, List.prefix_nil] at h
      exact hkey h
    rw [List.take_length_add_append, List.getLast?_append_of_ne_nil _ hne]
  constructor
  · rintro ⟨hoccurs, hbefore, hbehind⟩
    rw [hdrop] at hoccurs
    rw [hlast hoccurs] at hbefore
    rw [Nat.add_assoc, hdrop] at hbehind
    exact ⟨hoccurs, hbefore, hbehind⟩
  · rintro ⟨hoccurs, hbefore, hbehind⟩
    refine ⟨by rwa [hdrop], by rwa [hlast hoccurs], by rwa [Nat.add_assoc, hdrop]⟩

theorem replaceable_zero {key text : List Char} :
    Replaceable key text 0 ↔ key <+: text ∧ isBoundary key.getLast? (text.drop key.length) = true := by
  constructor
  · rintro ⟨hoccurs, -, hbehind⟩
    rw [Nat.zero_add] at hbehind
    exact ⟨hoccurs, hbehind⟩
  · rintro ⟨hoccurs, hbehind⟩
    exact ⟨hoccurs, by simp, by rwa [Nat.zero_add]⟩

/-- The key stands at the start of a text. -/
theorem keyStandsAt_iff {key text : List Char} (hkey : key ≠ []) (before? : Option Char) :
    keyStandsAt key before? text = true ↔
      key <+: text ∧ isBoundary key.getLast? (text.drop key.length) = true := by
  have hlast : key.getLast?.or before? = key.getLast? := by
    rw [List.getLast?_eq_some_getLast hkey]
    rfl
  unfold keyStandsAt
  rw [hlast]
  cases hdrop : dropPrefix? key text with
  | none =>
      refine ⟨fun h => (by cases h), ?_⟩
      rintro ⟨⟨rest, hrest⟩, -⟩
      rw [dropPrefix?_eq_some_iff.mpr hrest.symm] at hdrop
      cases hdrop
  | some rest =>
      rw [dropPrefix?_eq_some_iff.mp hdrop, List.drop_left]
      simp

/-! ## §3. Replacing. -/

section

variable {key value : List Char}

theorem replaceKeyFrom_eq_drop (key value : List Char) : ∀ (skip : Nat) (text : List Char),
    replaceKeyFrom key value skip text = replaceKeyFrom key value 0 (text.drop skip)
  | 0, _ => rfl
  | _ + 1, [] => by simp [replaceKeyFrom]
  | skip + 1, _ :: rest => by rw [replaceKeyFrom, replaceKeyFrom_eq_drop key value skip rest, List.drop_succ_cons]

/-- A text before which an occurrence is replaced. -/
theorem Cuts.behind_key {before text result first : List Char} {pieces : List (List Char)}
    (hkey : key ≠ []) (h : Cuts 1 key value text result first pieces)
    (hreplaceable : Replaceable key (before ++ (key ++ text)) before.length) :
    Cuts before.length key value (before ++ (key ++ text)) (before ++ (value ++ result)) before
      (first :: pieces) := by
  have hlength : 0 < key.length := List.length_pos_of_ne_nil hkey
  have hshift (i : Nat) (hi : 0 < i) :
      Replaceable key (before ++ (key ++ text)) (before.length + key.length + i)
        ↔ Replaceable key text i := by
    rw [← List.append_assoc, ← List.length_append, replaceable_append hkey _ hi]
  have hplaces : places key before.length (first :: pieces)
      = before.length :: (places key first.length pieces).map (before.length + key.length + ·) := by
    rw [places, places_add]
  refine ⟨?_, ?_, fun i => ?_⟩
  · rw [List.intercalate_cons_cons, ← h.text_eq, List.append_assoc]
  · rw [List.intercalate_cons_cons, ← h.result_eq, List.append_assoc]
  rw [hplaces]
  constructor
  · intro hi
    rcases List.mem_cons.mp hi with rfl | hi
    · refine ⟨⟨le_rfl, hreplaceable⟩, fun j hj hlt => ?_⟩
      rcases List.mem_cons.mp hj with rfl | hj
      · exact absurd hlt (lt_irrefl _)
      · obtain ⟨k, -, rfl⟩ := List.mem_map.mp hj
        omega
    · obtain ⟨k, hk, rfl⟩ := List.mem_map.mp hi
      obtain ⟨⟨hpos, hthere⟩, hapart⟩ := (h.mem_places k).mp hk
      refine ⟨⟨by omega, (hshift k hpos).mpr hthere⟩, fun j hj hlt => ?_⟩
      rcases List.mem_cons.mp hj with rfl | hj
      · omega
      · obtain ⟨l, hl, rfl⟩ := List.mem_map.mp hj
        have := hapart l hl (by omega)
        omega
  · rintro ⟨⟨hle, hthere⟩, hapart⟩
    rcases Nat.eq_or_lt_of_le hle with rfl | hlt
    · exact List.mem_cons_self
    -- behind the first occurrence, and not right behind it
    have hfar := hapart before.length List.mem_cons_self hlt
    obtain ⟨k, rfl⟩ := Nat.exists_eq_add_of_lt hfar
    have hk : before.length + key.length + k + 1 = before.length + key.length + (k + 1) := by omega
    rw [hk] at hthere hapart ⊢
    refine List.mem_cons_of_mem _ (List.mem_map_of_mem ((h.mem_places _).mpr ⟨⟨by omega, ?_⟩, ?_⟩))
    · exact (hshift _ (Nat.succ_pos k)).mp hthere
    · intro l hl hlt
      have := hapart _ (List.mem_cons_of_mem _ (List.mem_map_of_mem hl)) (by omega)
      omega

/-- A text before which a character is kept. -/
theorem Cuts.behind_char {c : Char} {text result first : List Char} {pieces : List (List Char)}
    (hkey : key ≠ []) (h : Cuts 1 key value text result first pieces)
    (hnot : ¬ Replaceable key (c :: text) 1) :
    Cuts 1 key value (c :: text) (c :: result) (c :: first) pieces := by
  have hshift (i : Nat) (hi : 0 < i) : Replaceable key (c :: text) (1 + i) ↔ Replaceable key text i :=
    replaceable_append hkey [c] hi
  have hplaces : places key (c :: first).length pieces = (places key first.length pieces).map (1 + ·) := by
    rw [List.length_cons, Nat.add_comm, places_add]
  refine ⟨?_, ?_, fun i => ?_⟩
  · rw [intercalate_cons_cons_left, ← h.text_eq]
  · rw [intercalate_cons_cons_left, ← h.result_eq]
  rw [hplaces]
  constructor
  · intro hi
    obtain ⟨k, hk, rfl⟩ := List.mem_map.mp hi
    obtain ⟨⟨hpos, hthere⟩, hapart⟩ := (h.mem_places k).mp hk
    refine ⟨⟨by omega, (hshift k hpos).mpr hthere⟩, fun j hj hlt => ?_⟩
    obtain ⟨l, hl, rfl⟩ := List.mem_map.mp hj
    have := hapart l hl (by omega)
    omega
  · rintro ⟨⟨hle, hthere⟩, hapart⟩
    obtain ⟨k, rfl⟩ := Nat.exists_eq_add_of_le hle
    rcases Nat.eq_zero_or_pos k with rfl | hpos
    · exact absurd hthere hnot
    refine List.mem_map_of_mem ((h.mem_places k).mpr ⟨⟨hpos, (hshift k hpos).mp hthere⟩, ?_⟩)
    intro l hl hlt
    have := hapart _ (List.mem_map_of_mem hl) (by omega)
    omega

theorem replaceable_one {c : Char} {text : List Char} (hkey : key ≠ []) :
    Replaceable key (c :: text) 1 ↔ (mayPrecedeKey c && keyStandsAt key (some c) text) = true := by
  rw [Bool.and_eq_true, keyStandsAt_iff hkey]
  constructor
  · rintro ⟨hoccurs, hbefore, hbehind⟩
    rw [Nat.add_comm, List.drop_succ_cons] at hbehind
    exact ⟨hbefore c rfl, hoccurs, hbehind⟩
  · rintro ⟨hbefore, hoccurs, hbehind⟩
    refine ⟨hoccurs, fun d hd => ?_, by rwa [Nat.add_comm, List.drop_succ_cons]⟩
    obtain rfl : c = d := Option.some.inj hd
    exact hbefore

/-- The occurrences behind the first character. -/
theorem exists_replaceKeyFrom (hkey : key ≠ []) : ∀ text : List Char,
    ∃ first pieces, Cuts 1 key value text (replaceKeyFrom key value 0 text) first pieces
  | [] => by
      refine ⟨[], [], rfl, rfl, fun i => ⟨fun h => (by cases h), ?_⟩⟩
      rintro ⟨⟨-, hthere⟩, -⟩
      have hoccurs := hthere.occurs
      rw [List.drop_nil, List.prefix_nil] at hoccurs
      exact absurd hoccurs hkey
  | c :: rest => by
      by_cases hstands : (mayPrecedeKey c && keyStandsAt key (some c) rest) = true
      · have hone := (replaceable_one hkey).mpr hstands
        obtain ⟨text, htext : key ++ text = rest⟩ := hone.occurs
        have hshorter : text.length < rest.length := by
          rw [← htext, List.length_append]
          exact Nat.lt_add_of_pos_left (List.length_pos_of_ne_nil hkey)
        obtain ⟨first, pieces, hcuts⟩ := exists_replaceKeyFrom hkey text
        refine ⟨[c], first :: pieces, ?_⟩
        rw [← htext] at hstands hone ⊢
        rw [replaceKeyFrom, if_pos hstands, replaceKeyFrom_eq_drop, List.drop_left, List.cons_append]
        have hbehind : Replaceable key ([c] ++ (key ++ text)) [c].length := hone
        exact hcuts.behind_key hkey hbehind
      · obtain ⟨first, pieces, hcuts⟩ := exists_replaceKeyFrom hkey rest
        refine ⟨c :: first, pieces, ?_⟩
        rw [replaceKeyFrom, if_neg hstands]
        exact hcuts.behind_char hkey fun hone => hstands ((replaceable_one hkey).mp hone)
termination_by text => text.length

/-- **The pieces of a text in which a key is replaced.** -/
theorem replaceKey_cuts (hkey : key ≠ []) (text : List Char) :
    ∃ first pieces, Cuts 0 key value text (replaceKey key value text) first pieces := by
  unfold replaceKey
  split
  next hstands =>
    have hzero := replaceable_zero.mpr ((keyStandsAt_iff hkey none).mp hstands)
    obtain ⟨rest, rfl⟩ : key <+: text := hzero.occurs
    obtain ⟨first, pieces, hcuts⟩ := @exists_replaceKeyFrom key value hkey rest
    refine ⟨[], first :: pieces, ?_⟩
    rw [replaceKeyFrom_eq_drop, List.drop_left]
    have hbehind : Replaceable key ([] ++ (key ++ rest)) ([] : List Char).length := hzero
    exact hcuts.behind_key hkey hbehind
  next hstands =>
    obtain ⟨first, pieces, hcuts⟩ := @exists_replaceKeyFrom key value hkey text
    refine ⟨first, pieces, hcuts.text_eq, hcuts.result_eq, fun i => ?_⟩
    rw [hcuts.mem_places]
    have hpos : 1 ≤ i ∧ Replaceable key text i ↔ 0 ≤ i ∧ Replaceable key text i := by
      refine ⟨fun h => ⟨Nat.zero_le i, h.2⟩, fun h => ⟨?_, h.2⟩⟩
      rcases Nat.eq_zero_or_pos i with rfl | hpos
      · exact absurd ((keyStandsAt_iff hkey none).mpr (replaceable_zero.mp h.2)) hstands
      · exact hpos
    rw [hpos]

end

/-! ## §4. Whole keys. -/

theorem IsPath.ne_nil {key : List Char} (h : IsPath key) : key ≠ [] := by
  obtain ⟨names, hnames, hidentifiers, rfl⟩ := h
  cases names with
  | nil => exact absurd rfl hnames
  | cons name names =>
      obtain ⟨c, hc, -⟩ := (hidentifiers name List.mem_cons_self).1
      cases name with
      | nil => cases hc
      | cons d name =>
          rw [intercalate_cons_cons_left]
          exact List.cons_ne_nil _ _

theorem IsPath.mem {key : List Char} (h : IsPath key) :
    ∀ c ∈ key, isIdentifierPart c = true ∨ c = '.' := by
  obtain ⟨names, -, hidentifiers, rfl⟩ := h
  induction names with
  | nil => simp
  | cons name names ih =>
      have hname := (hidentifiers name List.mem_cons_self).2
      have ih := ih fun other hother => hidentifiers other (List.mem_cons_of_mem _ hother)
      cases names with
      | nil =>
          rw [List.intercalate_singleton]
          exact fun c hc => .inl (hname c hc)
      | cons second names =>
          intro c hc
          rw [List.intercalate_cons_cons] at hc
          rcases List.mem_append.mp hc with hc | hc
          · rcases List.mem_append.mp hc with hc | hc
            · exact .inl (hname c hc)
            · exact .inr (List.mem_singleton.mp hc)
          · exact ih c hc

/-- **An ordinary place** for a key: the key ends with a word character, and the characters beside it
belong to an identifier just when they are word characters, but for a dollar sign before it. -/
structure Ordinary (key text : List Char) (place : Nat) : Prop where
  ending : ∀ c ∈ key.getLast?, isWord c = true
  before : ∀ c ∈ (text.take place).getLast?, isIdentifierPart c = (isWord c || c == '$')
  behind : ∀ c ∈ text[place + key.length]?, isIdentifierPart c = isWord c

theorem isIdentifierPart_of_ascii {c : Char} (h : c.toNat < 128) :
    isIdentifierPart c = (isWord c || c == '$') := by
  rw [isIdentifierPart, isWord, if_pos h, if_pos h]
  cases isAsciiLetter c <;> cases isAsciiDigit c <;> simp [Bool.or_comm]

/-- In a text of ASCII characters only a dollar sign at the end of the key or right behind it makes a
place extraordinary. -/
theorem ordinary_of_ascii {key text : List Char} {place : Nat} (htext : ∀ c ∈ text, c.toNat < 128)
    (hending : ∀ c ∈ key.getLast?, isWord c = true) (hbehind : text[place + key.length]? ≠ some '$') :
    Ordinary key text place := by
  refine ⟨hending, fun c hc => ?_, fun c hc => ?_⟩
  · exact isIdentifierPart_of_ascii (htext c (List.mem_of_mem_take (List.mem_of_getLast? hc)))
  · have hne : (c == '$') = false := by
      rw [beq_eq_false_iff_ne]
      rintro rfl
      exact hbehind hc
    rw [isIdentifierPart_of_ascii (htext c (List.mem_of_getElem? hc)), hne, Bool.or_false]

/-- At an ordinary place a key can be replaced just when it is whole. -/
theorem Ordinary.replaceable_iff {key text : List Char} {place : Nat} (hkey : key ≠ [])
    (h : Ordinary key text place) : Replaceable key text place ↔ Whole key text place := by
  have hbefore (c : Char) (hc : c ∈ (text.take place).getLast?) :
      mayPrecedeKey c = true ↔ isIdentifierPart c = false ∧ c ≠ '.' := by
    rw [h.before c hc]
    simp [mayPrecedeKey, and_assoc]
  have hlast : key.getLast?.any isWord = true := by
    rw [List.getLast?_eq_some_getLast hkey]
    exact h.ending _ (List.getLast?_eq_some_getLast hkey)
  have hbehind : isBoundary key.getLast? (text.drop (place + key.length)) = true
      ↔ ∀ c ∈ text[place + key.length]?, isIdentifierPart c = false := by
    rw [isBoundary, hlast, List.head?_drop]
    have hthere := h.behind
    cases hc : text[place + key.length]? with
    | none => simp
    | some c =>
        rw [hc] at hthere
        simp [hthere c rfl]
  constructor
  · intro hthere
    exact ⟨hthere.occurs, fun c hc => (hbefore c hc).mp (hthere.before c hc), hbehind.mp hthere.behind⟩
  · intro hthere
    exact ⟨hthere.occurs, fun c hc => (hbefore c hc).mpr (hthere.before c hc), hbehind.mpr hthere.behind⟩

/-- A whole key begins neither inside of another occurrence of the key nor right behind it. -/
theorem Whole.apart {key text : List Char} (hkey : IsPath key) {i j : Nat} (h : Whole key text i)
    (hother : key <+: text.drop j) (hlt : j < i) : j + key.length < i := by
  by_contra hnear
  obtain ⟨rest, hrest⟩ := hother
  obtain ⟨c, hc⟩ : ∃ c, key[i - 1 - j]? = some c := ⟨_, List.getElem?_eq_getElem (by omega)⟩
  have hinside : i - 1 - j < key.length := by omega
  have hplace : j + (i - 1 - j) = i - 1 := by omega
  -- the character before the whole key is one of the other occurrence
  have hbefore : (text.take i).getLast? = some c := by
    rw [List.getLast?_take, if_neg (by omega), ← hplace, ← List.getElem?_drop, ← hrest,
      List.getElem?_append_left hinside, hc]
    rfl
  obtain ⟨hpart, hdot⟩ := h.before c hbefore
  rcases hkey.mem c (List.mem_of_getElem? hc) with hname | hname
  · rw [hpart] at hname
    cases hname
  · exact hdot hname

/-- **A constant is put in where its key stands whole.**  The text is cut at occurrences of the key,
which is a path of identifiers, and joined again with the value, so that all other text is kept.  An
occurrence is taken just when the characters beside it let it be replaced and no occurrence before it
reaches up to it; at an ordinary place this holds just of the whole key. -/
theorem applyDefines_replaces_whole (key value : String) (text : List Char) (hkey : IsPath key.toList) :
    ∃ first pieces, Cuts 0 key.toList value.toList text (applyDefines [(key, value)] text) first pieces
      ∧ ∀ i, Ordinary key.toList text i →
        (i ∈ places key.toList first.length pieces ↔ Whole key.toList text i) := by
  obtain ⟨first, pieces, hcuts⟩ := @replaceKey_cuts key.toList value.toList hkey.ne_nil text
  refine ⟨first, pieces, hcuts, fun i hordinary => ?_⟩
  rw [hcuts.mem_places]
  constructor
  · rintro ⟨⟨-, hthere⟩, -⟩
    exact (hordinary.replaceable_iff hkey.ne_nil).mp hthere
  · intro hwhole
    refine ⟨⟨Nat.zero_le i, (hordinary.replaceable_iff hkey.ne_nil).mpr hwhole⟩, fun j hj hlt => ?_⟩
    have hother := ((hcuts.mem_places j).mp hj).1.2.occurs
    exact hwhole.apart hkey hother hlt

theorem isPath_debug : IsPath "DEBUG".toList := by
  refine ⟨["DEBUG".toList], by simp, fun name hname => ?_, by simp⟩
  rw [List.mem_singleton.mp hname]
  exact ⟨⟨'D', rfl, rfl⟩, List.all_eq_true.mp (by rfl)⟩

/-- A member, a longer name and a whole key: in a text without dollar signs every place is ordinary. -/
theorem debug_is_replaced : IsPath "DEBUG".toList ∧
    ∃ first pieces, Cuts 0 "DEBUG".toList "1".toList "a.DEBUG,DEBUGS,DEBUG".toList
        (applyDefines [("DEBUG", "1")] "a.DEBUG,DEBUGS,DEBUG".toList) first pieces
      ∧ ∀ i, i ∈ places "DEBUG".toList first.length pieces
          ↔ Whole "DEBUG".toList "a.DEBUG,DEBUGS,DEBUG".toList i := by
  obtain ⟨first, pieces, hcuts, hwhole⟩ :=
    applyDefines_replaces_whole "DEBUG" "1" "a.DEBUG,DEBUGS,DEBUG".toList isPath_debug
  refine ⟨isPath_debug, first, pieces, hcuts, fun i => hwhole i ?_⟩
  refine ordinary_of_ascii (by simp) (fun c hc => ?_) fun hdollar => ?_
  · cases hc
    rfl
  · have hmem : '$' ∈ "a.DEBUG,DEBUGS,DEBUG".toList := List.mem_of_getElem? hdollar
    simp at hmem

/-- **The beginning of a longer identifier is replaced.**  A dollar sign continues an identifier, but a
word boundary stands before it. -/
theorem dollar_is_replaced : IsPath "DEBUG".toList
    ∧ applyDefines [("DEBUG", "1")] "DEBUG$".toList = "1$".toList
    ∧ ¬ Whole "DEBUG".toList "DEBUG$".toList 0 := by
  refine ⟨isPath_debug, by decide, fun hwhole => ?_⟩
  have hdollar := hwhole.behind '$' rfl
  revert hdollar
  decide

end AssetBundler.Script
