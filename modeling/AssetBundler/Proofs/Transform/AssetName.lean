/-
  AssetBundler.Proofs.Transform.AssetName
  ────────────────────────────────
  **WHAT THE NAME OF AN ASSET TELLS.**

  A template is expanded token by token, and no token reaches over an opening
  bracket, so a template is expanded piece by piece where a bracket opens.
  What stands in front of the first bracket is kept, and when a template ends
  with a digest and the extension, so do the names that it gives, from which
  the digest can be read off again:

    • `AssetName.expandFrom_append` — a template in two pieces,
    • `AssetName.fixedStart_prefix` — what all names of a template begin with,
    • `AssetName.EndsWithDigest` — a digest at the end of a template,
    • `AssetName.short_eq_of_expand_eq` — one name, one digest.
-/
import AssetBundler.Proofs.Digest.Sha256
import AssetBundler.Transform.AssetName

namespace AssetBundler

open AssetBundler.Text

/-! ## §1. Text in front of a character that ends a run. -/

namespace Text

variable {c : Char}

/-- A word without the character is found in front of it or not at all. -/
theorem dropPrefix?_append_cons (rest : List Char) : ∀ {word : List Char} (text : List Char),
    c ∉ word →
      dropPrefix? word (text ++ c :: rest) = (dropPrefix? word text).map (· ++ c :: rest)
  | [], text, _ => by simp [dropPrefix?]
  | a :: word, [], hc => by
      have hne : (a == c) = false := beq_false_of_ne (Ne.symm (List.ne_of_not_mem_cons hc))
      simp [dropPrefix?, hne]
  | a :: word, b :: text, hc => by
      have ih := dropPrefix?_append_cons rest text (List.not_mem_of_not_mem_cons hc)
      simp only [List.cons_append, dropPrefix?]
      split
      next => exact ih
      next => rfl

variable {test : Char → Bool}

theorem takeWhile_append_cons (hc : test c = false) (rest : List Char) : ∀ text : List Char,
    (text ++ c :: rest).takeWhile test = text.takeWhile test
  | [] => by simp [hc]
  | b :: text => by
      by_cases hb : test b = true
      · simp [hb, takeWhile_append_cons hc rest text]
      · simp [hb]

theorem dropWhile_append_cons (hc : test c = false) (rest : List Char) : ∀ text : List Char,
    (text ++ c :: rest).dropWhile test = text.dropWhile test ++ c :: rest
  | [] => by simp [hc]
  | b :: text => by
      by_cases hb : test b = true
      · simp [hb, dropWhile_append_cons hc rest text]
      · simp [hb]

/-- What stands behind the last occurrence of a character tells where it is. -/
theorem append_cons_inj {start start' end_ end' : List Char} (hend : c ∉ end_) (hend' : c ∉ end')
    (h : start ++ c :: end_ = start' ++ c :: end') : start = start' ∧ end_ = end' := by
  have hreverse := congrArg List.reverse h
  simp only [List.reverse_append, List.reverse_cons, List.append_assoc, List.singleton_append] at hreverse
  have htest : ∀ {l : List Char}, c ∉ l → ∀ a ∈ l.reverse, (a != c) = true := by
    intro l hl a ha
    simpa using ne_of_mem_of_not_mem (List.mem_reverse.mp ha) hl
  have htake := congrArg (List.takeWhile (· != c)) hreverse
  rw [List.takeWhile_append_of_pos (htest hend), List.takeWhile_append_of_pos (htest hend')] at htake
  have hsame : end_ = end' := by simpa using htake
  subst hsame
  exact ⟨List.append_cancel_right h, rfl⟩

end Text

namespace AssetName

/-! ## §2. A template in pieces. -/

/-- What a word of the tokens leads to, when the text behind the bracket begins with it. -/
def tokenOf? (text : List Char) (word : List Char × Token) : Option (Token × List Char) :=
  match dropPrefix? word.1 text with
  | some (']' :: rest) => some (word.2, rest)
  | some (':' :: rest) =>
    let digits := rest.takeWhile isDecimalDigit
    match digits, rest.dropWhile isDecimalDigit with
    | _ :: _, ']' :: rest =>
      some (if word.2 = .hash none then .hash (numberOf? digits) else word.2, rest)
    | _, _ => none
  | _ => none

theorem tokenAt?_cons (text : List Char) : tokenAt? ('[' :: text) = words.findSome? (tokenOf? text) :=
  rfl

theorem isDecimalDigit_bracket : isDecimalDigit '[' = false := rfl

/-- A token does not reach over an opening bracket. -/
theorem tokenOf?_append {word : List Char × Token} (hword : '[' ∉ word.1) (text rest : List Char) :
    tokenOf? (text ++ '[' :: rest) word
      = (tokenOf? text word).map fun (token, behind) => (token, behind ++ '[' :: rest) := by
  unfold tokenOf?
  rw [dropPrefix?_append_cons rest text hword]
  rcases dropPrefix? word.1 text with _ | _ | ⟨c, behind⟩
  · rfl
  · rfl
  · by_cases hclose : c = ']'
    · subst hclose
      rfl
    by_cases hcolon : c = ':'
    · subst hcolon
      simp only [Option.map_some, List.cons_append]
      rw [takeWhile_append_cons isDecimalDigit_bracket,
        dropWhile_append_cons isDecimalDigit_bracket]
      cases behind.takeWhile isDecimalDigit with
      | nil => rfl
      | cons d ds =>
          -- the run of digits ends in front of the bracket, if not before
          cases behind.dropWhile isDecimalDigit with
          | nil => rfl
          | cons e es =>
              by_cases he : e = ']'
              · subst he
                rfl
              · simp [he]
    · simp [hclose, hcolon]

theorem bracket_not_mem_words : ∀ word ∈ words, '[' ∉ word.1 := by
  decide

theorem tokenAt?_append {text : List Char} (htext : text ≠ []) (rest : List Char) :
    tokenAt? (text ++ '[' :: rest)
      = (tokenAt? text).map fun (token, behind) => (token, behind ++ '[' :: rest) := by
  obtain ⟨c, text, rfl⟩ := List.exists_cons_of_ne_nil htext
  by_cases hc : c = '['
  · subst hc
    rw [List.cons_append, tokenAt?_cons, tokenAt?_cons, List.map_findSome?]
    -- word by word
    have hwords : ∀ l : List (List Char × Token), (∀ word ∈ l, '[' ∉ word.1) →
        l.findSome? (tokenOf? (text ++ '[' :: rest))
          = l.findSome? (Option.map (fun (token, behind) => (token, behind ++ '[' :: rest))
              ∘ tokenOf? text) := by
      intro l
      induction l with
      | nil => exact fun _ => rfl
      | cons word l ih =>
          intro hl
          rw [List.findSome?_cons, List.findSome?_cons, Function.comp_apply,
            tokenOf?_append (hl word List.mem_cons_self) text rest,
            ih fun w hw => hl w (List.mem_cons_of_mem word hw)]
    exact hwords words bracket_not_mem_words
  · simp [tokenAt?, hc]

theorem expandFrom_eq_drop (subject : Subject) : ∀ (skip : Nat) (text : List Char),
    expandFrom subject skip text = expandFrom subject 0 (text.drop skip)
  | 0, text => by rw [List.drop_zero]
  | skip + 1, [] => by simp [expandFrom]
  | skip + 1, c :: text => by
      rw [expandFrom, expandFrom_eq_drop subject skip text, List.drop_succ_cons]

section

variable {subject : Subject} {c : Char} {text : List Char}

theorem expandFrom_of_none (h : tokenAt? (c :: text) = none) :
    expandFrom subject 0 (c :: text) = c :: expandFrom subject 0 text := by
  simp only [expandFrom, h]

theorem expandFrom_of_some {token : Token} {behind : List Char}
    (h : tokenAt? (c :: text) = some (token, behind)) :
    expandFrom subject 0 (c :: text)
      = (token.expand subject).toList ++ expandFrom subject (text.length - behind.length) text := by
  simp only [expandFrom, h]

end

/-- **A template in two pieces**, the second of which begins with a bracket. -/
theorem expandFrom_append (subject : Subject) (rest : List Char) :
    ∀ (start : List Char) (skip : Nat), skip ≤ start.length →
      expandFrom subject skip (start ++ '[' :: rest)
        = expandFrom subject skip start ++ expandFrom subject 0 ('[' :: rest) := by
  intro start
  induction start with
  | nil =>
      intro skip hskip
      obtain rfl := Nat.le_zero.mp hskip
      simp [expandFrom]
  | cons c start ih =>
      intro skip hskip
      cases skip with
      | succ skip => exact ih skip (Nat.le_of_succ_le_succ hskip)
      | zero =>
          have htoken := tokenAt?_append (List.cons_ne_nil c start) rest
          rw [List.cons_append] at htoken ⊢
          cases hat : tokenAt? (c :: start) with
          | none =>
              rw [hat, Option.map_none] at htoken
              rw [expandFrom_of_none htoken, expandFrom_of_none hat, ih 0 (Nat.zero_le _),
                List.cons_append]
          | some found =>
              obtain ⟨token, behind⟩ := found
              rw [hat, Option.map_some] at htoken
              rw [expandFrom_of_some htoken, expandFrom_of_some hat]
              -- what is left of the token to be passed over is the same
              have hskip : (start ++ '[' :: rest).length - (behind ++ '[' :: rest).length
                  = start.length - behind.length := by
                simp
                omega
              rw [hskip, ih _ (Nat.sub_le _ _), List.append_assoc]

/-- What a template begins with, in front of its first bracket. -/
def fixedStart (template : String) : List Char :=
  template.toList.takeWhile (· != '[')

/-- **All names of a template** begin with what stands in front of its first bracket. -/
theorem fixedStart_prefix (template : String) (subject : Subject) :
    fixedStart template <+: (expand template subject).toList := by
  have hlist : ∀ text : List Char, text.takeWhile (· != '[') <+: expandFrom subject 0 text := by
    intro text
    induction text with
    | nil => simp
    | cons c text ih =>
        by_cases hc : c = '['
        · simp [hc]
        · have hnone : tokenAt? (c :: text) = none := by simp [tokenAt?, hc]
          rw [List.takeWhile_cons_of_pos (by simpa using hc)]
          rw [expandFrom_of_none hnone]
          exact List.cons_prefix_cons.mpr ⟨rfl, ih⟩
  rw [expand, String.toList_ofList]
  exact hlist template.toList

/-! ## §3. Digests in names. -/

theorem isDecimalDigit_of_isAsciiDigit {c : Char} (hc : isAsciiDigit c = true) :
    isDecimalDigit c = true := by
  have hascii : c.toNat < 128 := by
    simp only [isAsciiDigit, Bool.and_eq_true, decide_eq_true_eq] at hc
    have hle : c.toNat ≤ '9'.toNat := hc.2
    have hnine : '9'.toNat = 57 := rfl
    omega
  rw [isDecimalDigit, if_pos hascii, hc]

/-- The digits in the token give the length of the digest. -/
theorem tokenAt?_digest {length : Nat} {digits : List Char} (hdigits : digits ≠ [])
    (hnumber : numberOf? digits = some length) (rest : List Char) :
    tokenAt? ('[' :: ("hash:".toList ++ digits ++ ']' :: rest))
      = some (.hash (some length), rest) := by
  have hall : ∀ c ∈ digits, isDecimalDigit c = true := by
    unfold numberOf? at hnumber
    dsimp only at hnumber
    split at hnumber
    next hascii =>
      simp only [Bool.and_eq_true, List.all_eq_true] at hascii
      exact fun c hc => isDecimalDigit_of_isAsciiDigit (hascii.1 c hc)
    next => cases hnumber
  have htake : (digits ++ ']' :: rest).takeWhile isDecimalDigit = digits := by
    rw [List.takeWhile_append_of_pos hall]
    exact List.append_nil digits
  have hdrop : (digits ++ ']' :: rest).dropWhile isDecimalDigit = ']' :: rest := by
    rw [List.dropWhile_append_of_pos hall]
    rfl
  have hhash : tokenOf? ("hash:".toList ++ digits ++ ']' :: rest) ("hash".toList, .hash none)
      = some (.hash (some length), rest) := by
    have hword : dropPrefix? "hash".toList ("hash:".toList ++ digits ++ ']' :: rest)
        = some (':' :: (digits ++ ']' :: rest)) := by
      rw [List.append_assoc]
      rfl
    obtain ⟨d, ds, rfl⟩ := List.exists_cons_of_ne_nil hdigits
    simp only [tokenOf?, hword, htake, hdrop, hnumber, if_true]
  -- neither of the first two words begins the text
  show words.findSome? (tokenOf? ("hash:".toList ++ digits ++ ']' :: rest)) = _
  rw [words, List.findSome?_cons, List.findSome?_cons, List.findSome?_cons, hhash]
  rfl

theorem expandFrom_extension (subject : Subject) :
    expandFrom subject 0 ".[ext]".toList = '.' :: subject.extension.toList := by
  show '.' :: (subject.extension.toList ++ []) = _
  rw [List.append_nil]

theorem expandFrom_digest (subject : Subject) {length : Nat} {digits : List Char}
    (hdigits : digits ≠ []) (hnumber : numberOf? digits = some length) :
    expandFrom subject 0 ('[' :: ("hash:".toList ++ digits ++ ']' :: ".[ext]".toList))
      = (Digest.short subject.content length).toList ++ '.' :: subject.extension.toList := by
  rw [expandFrom_of_some (tokenAt?_digest hdigits hnumber ".[ext]".toList), expandFrom_eq_drop,
    ← expandFrom_extension subject]
  have hbehind : ("hash:".toList ++ digits ++ ']' :: ".[ext]".toList).drop
      (("hash:".toList ++ digits ++ ']' :: ".[ext]".toList).length - ".[ext]".toList.length)
        = ".[ext]".toList := by
    rw [List.append_cons, List.length_append, Nat.add_sub_cancel, List.drop_left]
  rw [hbehind]
  rfl

/-- The template ends with so many digits of a digest, a dot and the extension. -/
def EndsWithDigest (length : Nat) (template : String) : Prop :=
  ∃ start digits, digits ≠ [] ∧ numberOf? digits = some length
    ∧ template.toList = start ++ '[' :: ("hash:".toList ++ digits ++ ']' :: ".[ext]".toList)

theorem EndsWithDigest.exists_expand {length : Nat} {template : String}
    (h : EndsWithDigest length template) (subject : Subject) :
    ∃ name, (expand template subject).toList
      = (name ++ (Digest.short subject.content length).toList)
        ++ '.' :: subject.extension.toList := by
  obtain ⟨start, digits, hdigits, hnumber, htemplate⟩ := h
  refine ⟨expandFrom subject 0 start, ?_⟩
  rw [expand, String.toList_ofList, htemplate, expandFrom_append subject _ start 0 (Nat.zero_le _),
    expandFrom_digest subject hdigits hnumber, List.append_assoc]

/-- **The digest can be read off a name**: what gives one name to two files gives them one digest, when
no extension has a dot. -/
theorem short_eq_of_expand_eq {length : Nat} {template template' : String}
    {subject subject' : Subject} (h : EndsWithDigest length template)
    (h' : EndsWithDigest length template') (hdot : '.' ∉ subject.extension.toList)
    (hdot' : '.' ∉ subject'.extension.toList)
    (heq : expand template subject = expand template' subject') :
    Digest.short subject.content length = Digest.short subject'.content length := by
  obtain ⟨name, hname⟩ := h.exists_expand subject
  obtain ⟨name', hname'⟩ := h'.exists_expand subject'
  rw [heq, hname'] at hname
  have hdigest := (append_cons_inj hdot' hdot hname).1
  refine String.toList_inj.mp (List.append_inj_right' hdigest ?_).symm
  simp [Digest.short, Digest.Sha256.length_hex]

end AssetName

end AssetBundler
