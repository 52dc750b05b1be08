/-
  AssetBundler.Proofs.Script.Positions
  ────────────────────────────────
  **PARSERS MOVE FORWARD.**

  A parser that succeeds leaves the cursor no earlier than it found it, and
  what it reads stands between the token it began at and the token it stopped
  at.  Each rule below says this of one way to put parsers together, each
  lemma of one production, and `parseGoal_goes` of all goals, by induction on
  their depth.  What splicing a text needs of the ranges of source follows:

    • `parse?_forward` — the range of an item, of the words before what an
      export exports, and of every dynamic import ends no earlier than it
      begins,
    • `parse?_inOrder` — each item stands behind the items before it.
-/
import AssetBundler.Script.Module
import Mathlib.Order.Nat

namespace AssetBundler.Script

/-! ## §1. Trees. -/

namespace Tree

theorem mem_collectList {α : Type} {f : Tree → List α} {a : α} :
    ∀ {ts : List Tree}, a ∈ collectList f ts ↔ ∃ t ∈ ts, a ∈ collect f t
  | [] => by simp [collectList]
  | t :: ts => by simp [collectList, mem_collectList]

theorem mem_subtrees_node {s : Tree} {kind : NodeKind} {range : Range} {parts : List Tree} :
    s ∈ (node kind range parts).subtrees ↔ s = node kind range parts ∨ ∃ t ∈ parts, s ∈ t.subtrees := by
  simp [subtrees, collect, mem_collectList]

/-- Every dynamic import in the tree ends no earlier than it begins. -/
def Forward (tree : Tree) : Prop :=
  ∀ s ∈ tree.subtrees, s.kind = .importCall → s.range.start ≤ s.range.stop

end Tree

/-- The range begins at one offset or behind, ends no later than another, and is no empty range the
wrong way round. -/
structure Range.Within (lo top : Nat) (range : Range) : Prop where
  start : lo ≤ range.start
  forward : range.start ≤ range.stop
  stop : range.stop ≤ top

theorem Range.Within.mono {m n top bound : Nat} {range : Range} (h : range.Within n top) (hm : m ≤ n)
    (hb : top ≤ bound) : range.Within m bound :=
  ⟨hm.trans h.start, h.forward, h.stop.trans hb⟩

namespace Tree

variable {lo top : Nat}

/-- Every dynamic import in the tree stands between two offsets. -/
def Within (lo top : Nat) (tree : Tree) : Prop :=
  ∀ s ∈ tree.subtrees, s.kind = .importCall → s.range.Within lo top

theorem Within.mono {m n bound : Nat} {tree : Tree} (h : tree.Within n top) (hm : m ≤ n)
    (hb : top ≤ bound) :
    tree.Within m bound :=
  fun s hs hkind => (h s hs hkind).mono hm hb

theorem Within.forward {tree : Tree} (h : tree.Within lo top) : tree.Forward :=
  fun s hs hkind => (h s hs hkind).forward

theorem within_node {kind : NodeKind} {range : Range} {parts : List Tree} :
    (node kind range parts).Within lo top ↔
      (kind = .importCall → range.Within lo top) ∧ ∀ t ∈ parts, t.Within lo top := by
  simp only [Within, mem_subtrees_node]
  constructor
  · intro h
    exact ⟨h _ (Or.inl rfl), fun t ht s hs => h s (Or.inr ⟨t, ht, hs⟩)⟩
  · rintro ⟨hnode, hparts⟩ s (rfl | ⟨t, ht, hs⟩)
    · exact hnode
    · exact hparts t ht s hs

/-- The dynamic imports in some trees stand between two offsets. -/
def Parts (lo top : Nat) (trees : List Tree) : Prop :=
  ∀ tree ∈ trees, tree.Within lo top

theorem Parts.nil : Parts lo 0 [] :=
  nofun

theorem parts_cons {tree : Tree} {trees : List Tree} :
    Parts lo top (tree :: trees) ↔ tree.Within lo top ∧ Parts lo top trees :=
  List.forall_mem_cons

theorem within_iff_parts {kind : NodeKind} {range : Range} {parts : List Tree}
    (h : kind ≠ .importCall) :
    (node kind range parts).Within lo top ↔ Parts lo top parts := by
  simp [within_node, h, Parts]

theorem Parts.mono {m n bound : Nat} {trees : List Tree} (h : Parts n top trees) (hm : m ≤ n)
  (hb : top ≤ bound) :
    Parts m bound trees :=
  fun tree ht => (h tree ht).mono hm hb

theorem Parts.append {s t : Nat} {xs ys : List Tree} (hx : Parts lo s xs) (hy : Parts lo t ys) :
    Parts lo (max s t) (xs ++ ys) :=
  List.forall_mem_append.mpr ⟨hx.mono le_rfl (le_max_left s t), hy.mono le_rfl (le_max_right s t)⟩

theorem Parts.one {tree : Tree} (h : tree.Within lo top) : Parts lo top [tree] :=
  List.forall_mem_singleton.mpr h

theorem Parts.cons {s t : Nat} {tree : Tree} {trees : List Tree} (h : tree.Within lo s)
  (hs : Parts lo t trees) :
    Parts lo (max s t) (tree :: trees) :=
  (Parts.one h).append hs

/-- A class with more decorators, before its own. -/
def marked (marks : List Tree) : Tree → Tree
  | node kind range parts => node kind range (marks ++ parts)

/-- Turning expressions into the targets that they spell keeps their dynamic imports; the induction
follows the four functions that do so. -/
theorem targets_within :
    (∀ tree : Tree, ∀ target, tree.Within lo top → tree.toTarget? = some target →
      target.Within lo top) ∧
    (∀ trailing parts, ∀ ps, Parts lo top parts → toProperties? trailing parts = some ps →
      Parts lo top ps) ∧
    (∀ tree : Tree, ∀ target, tree.Within lo top → toDefaulted? tree = some target →
      target.Within lo top) ∧
    (∀ trailing parts, ∀ ps, Parts lo top parts → toElements? trailing parts = some ps →
      Parts lo top ps) := by
  have hnil : Parts lo top [] := nofun
  apply toTarget?.mutual_induct
  all_goals simp +contextual only [toTarget?, toProperties?, toDefaulted?, toElements?,
    Option.map_eq_some_iff]
  all_goals grind [within_iff_parts, parts_cons, = Option.map_eq_some_iff]

theorem toTarget?_within {tree target : Tree} (h : tree.Within lo top)
    (he : tree.toTarget? = some target) :
    target.Within lo top :=
  targets_within.1 tree target h he

end Tree

/-- The words of an item that the lowering replaces end no earlier than they begin, and all dynamic
imports in the item do so too. -/
structure ModuleItem.Forward (item : ModuleItem) : Prop where
  range : (∀ tree, item ≠ .statement tree) → item.range.start ≤ item.range.stop
  exported : ∀ range tree, item = .exportDeclaration range tree ∨ item = .exportDefault range tree →
    range.start ≤ tree.range.start
  trees : ∀ tree ∈ item.trees, tree.Forward

/-- Where the words of an item stand: between two offsets, each declaration no shorter than the words
before what it exports; its dynamic imports stand there as well. -/
structure ModuleItem.Within (lo top : Nat) (item : ModuleItem) : Prop where
  start : lo ≤ item.range.start ∧ item.range.start ≤ top
  range : (∀ tree, item ≠ .statement tree) → item.range.Within lo top
  exported : ∀ range tree, item = .exportDeclaration range tree ∨ item = .exportDefault range tree →
    range.start ≤ tree.range.start ∧ tree.range.start ≤ top
  trees : ∀ tree ∈ item.trees, tree.Within lo top
  /-- The words of a declaration begin at no place inside a dynamic import, which may stand before them in
  a decorator. -/
  apart : (∀ tree, item ≠ .statement tree) →
    ∀ tree ∈ item.trees, ∀ s ∈ tree.subtrees, s.kind = .importCall →
    s.range.stop ≤ item.range.start ∨ item.range.start ≤ s.range.start

theorem ModuleItem.Within.forward {lo top : Nat} {item : ModuleItem}
  (h : item.Within lo top) : item.Forward :=
  ⟨fun hne => (h.range hne).forward, fun range tree he => (h.exported range tree he).1,
    fun tree ht => (h.trees tree ht).forward⟩

theorem ModuleItem.Within.mono {m n top bound : Nat} {item : ModuleItem} (h : item.Within n top)
    (hm : m ≤ n)
    (hb : top ≤ bound) : item.Within m bound :=
  ⟨⟨hm.trans h.start.1, h.start.2.trans hb⟩, fun hne => (h.range hne).mono hm hb,
    fun range tree he => ⟨(h.exported range tree he).1, (h.exported range tree he).2.trans hb⟩,
    fun tree ht => (h.trees tree ht).mono hm hb, h.apart⟩

/-- An export of a class with more decorators, before its own. -/
def ModuleItem.marked (marks : List Tree) : ModuleItem → ModuleItem
  | exportDeclaration range declaration => exportDeclaration range (declaration.marked marks)
  | exportDefault range value => exportDefault range (value.marked marks)
  | item => item

/-- Each item stands behind the items before it. -/
def InOrder (items : List ModuleItem) : Prop :=
  items.Pairwise fun item next => ∃ cut bound, item.Within 0 cut ∧ next.Within cut bound

namespace Grammar

open AssetBundler.Text AssetBundler.Script.Lexer AssetBundler.Script.Tree

/-! ## §2. What stands between two offsets. -/

/-- Results of parsers that stand in the source. -/
class Placed (α : Type) where
  /-- All of it stands at the first offset or behind, and no later than the second. -/
  From : Nat → Nat → α → Prop
  mono : ∀ {m n top bound : Nat} {a : α}, m ≤ n → top ≤ bound → From n top a → From m bound a

export Placed (From)

instance : Placed Nat where
  From n top offset := n ≤ offset ∧ offset ≤ top
  mono hm hb ha := ⟨hm.trans ha.1, ha.2.trans hb⟩

instance : Placed Tree where
  From n top tree := From n top tree.range.start ∧ tree.Within n top
  mono hm hb ha := ⟨Placed.mono hm hb ha.1, ha.2.mono hm hb⟩

instance : Placed PropertyName where
  From n top name := name.tree.Within n top
  mono hm hb ha := ha.mono hm hb

instance : Placed ModuleItem where
  From n top item := item.Within n top
  mono hm hb ha := ha.mono hm hb

instance {α : Type} [Placed α] : Placed (Option α) where
  From n top a? := ∀ a, a? = some a → From n top a
  mono hm hb ha a e := Placed.mono hm hb (ha a e)

instance {α : Type} [Placed α] : Placed (List α) where
  From n top as := ∀ a ∈ as, From n top a
  mono hm hb ha a e := Placed.mono hm hb (ha a e)

instance {α β : Type} [Placed α] [Placed β] : Placed (α × β) where
  From n top a := From n top a.1 ∧ From n top a.2
  mono hm hb ha := ⟨Placed.mono hm hb ha.1, Placed.mono hm hb ha.2⟩

theorem from_none {α : Type} [Placed α] {n : Nat} : From n 0 (none : Option α) :=
  nofun

theorem from_some {α : Type} [Placed α] {n top : Nat} {a : α} (h : From n top a) :
    From n top (some a) := by
  rintro _ ⟨⟩
  exact h

theorem from_nil {α : Type} [Placed α] {n : Nat} : From n 0 ([] : List α) :=
  nofun

theorem from_append {α : Type} [Placed α] {n s t : Nat} {as bs : List α} (ha : From n s as)
  (hb : From n t bs) :
    From n (max s t) (as ++ bs) :=
  List.forall_mem_append.mpr ⟨fun a h => Placed.mono le_rfl (le_max_left s t) (ha a h),
    fun b h => Placed.mono le_rfl (le_max_right s t) (hb b h)⟩

theorem from_one {α : Type} [Placed α] {n top : Nat} {a : α} (h : From n top a) : From n top [a] :=
  List.forall_mem_singleton.mpr h

theorem from_cons {α : Type} [Placed α] {n s t : Nat} {a : α} {as : List α} (h : From n s a)
  (hs : From n t as) :
    From n (max s t) (a :: as) :=
  from_append (from_one h) hs

section Unplaced

variable {α : Type}

/-- What stands nowhere. -/
abbrev unplaced : Placed α where
  From _ _ _ := True
  mono _ _ _ := trivial

instance : Placed Unit := unplaced
instance : Placed Bool := unplaced
instance : Placed Char := unplaced
instance : Placed String := unplaced
instance : Placed Token := unplaced
instance : Placed Name := unplaced
instance : Placed VariableKind := unplaced
instance : Placed ExportName := unplaced
instance : Placed ImportBinding := unplaced
instance : Placed ExportMember := unplaced

end Unplaced

/-! ## §3. Rules. -/

/-- The token stands behind the one before, and what is left to read behind the token. -/
structure Ordered (c : Cursor) : Prop where
  token : c.previousEnd ≤ c.token.start
  rest : c.token.start ≤ c.restPos

/-- One cursor is no earlier than another. -/
structure Behind (c d : Cursor) : Prop where
  ordered : Ordered d
  token : c.token.start ≤ d.token.start
  previous : c.previousEnd ≤ d.previousEnd

theorem Behind.refl {c : Cursor} (h : Ordered c) : Behind c c :=
  ⟨h, le_rfl, le_rfl⟩

theorem Behind.trans {c d e : Cursor} (h : Behind c d) (h' : Behind d e) : Behind c e :=
  ⟨h'.ordered, h.token.trans h'.token, h.previous.trans h'.previous⟩

/-- Begun at a token that stands at `lo` and at `top` or behind, when the token before ended at `hi` or
behind, the parser moves forward and gives what stands between `lo` and the token it stops at.  What
has been read before stands before `top`, which moves on with the cursor. -/
def Goes {α : Type} [Placed α] (lo hi top : Nat) (p : Parser α) : Prop :=
  ∀ ⦃c d : Cursor⦄ ⦃a : α⦄, Ordered c → lo ≤ c.token.start → hi ≤ c.previousEnd → top ≤ c.token.start →
    p c = some (a, d) → Behind c d ∧ From lo d.token.start a

/-- All goals move forward. -/
def AllGo (parse : ParseGoal) : Prop :=
  ∀ goal ctx lo hi top, Goes lo hi top (parse goal ctx)

/-- The cursor has moved from one place to another, in one step. -/
class Step (s : outParam Nat) (t : Nat) : Prop where
  le : s ≤ t

/-- The cursor has moved from one place to another, in any number of steps. -/
class Upto (s t : Nat) : Prop where
  le : s ≤ t

instance {t : Nat} : Upto t t :=
  ⟨le_rfl⟩

instance {r s t : Nat} [h : Step s t] [h' : Upto r s] : Upto r t :=
  ⟨h'.le.trans h.le⟩

instance {t : Nat} : Upto 0 t :=
  ⟨Nat.zero_le t⟩

instance {r s t : Nat} [h : Upto r t] [h' : Upto s t] : Upto (max r s) t :=
  ⟨max_le h.le h'.le⟩

section Rules

variable {α β : Type} [Placed α] [Placed β] {lo hi top : Nat}

/-- What goes from one place goes from a later one. -/
theorem Goes.later {t : Nat} [ht : Upto t top] {p : Parser α} (h : Goes lo hi t p) : Goes lo hi top p :=
  fun _ _ _ hc hlo hhi htop => h hc hlo hhi (ht.le.trans htop)

theorem pure_goes {t : Nat} [ht : Upto t top] {a : α} (h : From lo t a) :
    Goes lo hi top (pure a : Parser α) := by
  rintro c _ _ hc _ _ htop ⟨⟩
  exact ⟨.refl hc, Placed.mono le_rfl (ht.le.trans htop) h⟩

/-- A result that stands nowhere. -/
theorem plain_goes {a : α} (h : From lo 0 a) : Goes lo hi top (pure a : Parser α) :=
  pure_goes h

theorem bind_eq_some {α β : Type} {p : Parser α} {f : α → Parser β} {c e : Cursor} {b : β}
    (h : (p >>= f) c = some (b, e)) : ∃ a d, p c = some (a, d) ∧ f a d = some (b, e) := by
  obtain ⟨⟨a, d⟩, hp, hf⟩ := Option.bind_eq_some_iff.mp h
  exact ⟨a, d, hp, hf⟩

theorem Goes.bind {p : Parser α} {f : α → Parser β} (hp : Goes lo hi top p)
    (hf : ∀ a t, [Step top t] → From lo t a → Goes lo hi t (f a)) : Goes lo hi top (p >>= f) := by
  intro c e b hc hlo hhi htop h
  obtain ⟨a, d, hpa, hfb⟩ := bind_eq_some h
  obtain ⟨hcd, ha⟩ := hp hc hlo hhi htop hpa
  obtain ⟨hde, hb⟩ := @hf a d.token.start ⟨htop.trans hcd.token⟩ ha _ _ _ hcd.ordered
    (hlo.trans hcd.token)
    (hhi.trans hcd.previous) le_rfl hfb
  exact ⟨hcd.trans hde, hb⟩

theorem Goes.map {p : Parser α} {f : α → β} (hp : Goes lo hi top p) (hf : ∀ a t, From lo t a → From lo t
  (f a)) :
    Goes lo hi top (f <$> p) := by
  rw [map_eq_pure_bind]
  exact hp.bind fun a t _ ha => pure_goes (hf a t ha)

theorem Goes.ite {p q : Parser α} {b : Prop} [Decidable b] (hp : Goes lo hi top p)
    (hq : Goes lo hi top q) :
    Goes lo hi top (if b then p else q) := by
  split
  · exact hp
  · exact hq

/-- A choice within a sequence. -/
theorem Goes.ite_bind {p q : Parser α} {f : α → Parser β} {b : Prop} [Decidable b]
    (hp : Goes lo hi top p)
    (hq : Goes lo hi top q) (hf : ∀ a t, [Step top t] → From lo t a → Goes lo hi t (f a)) :
    Goes lo hi top (if b then p >>= f else q >>= f) :=
  .ite (.bind hp hf) (.bind hq hf)

/-- What may follow in one place may follow in a later one. -/
theorem later {t : Nat} [ht : Upto t top] {f : α → Parser β}
    (hf : ∀ a s, [Step t s] → From lo s a → Goes lo hi s (f a)) :
    ∀ a s, [Step top s] → From lo s a → Goes lo hi s (f a) :=
  fun a s hs => @hf a s ⟨ht.le.trans hs.le⟩

/-- What has been read before stands before a later place. -/
theorem up {t : Nat} [ht : Upto t top] {a : α} (h : From lo t a) : From lo top a :=
  Placed.mono le_rfl ht.le h

/-- What may follow may follow at once. -/
theorem now {f : α → Parser β} (hf : ∀ a s, [Step top s] → From lo s a → Goes lo hi s (f a)) (a : α)
    (ha : From lo top a) : Goes lo hi top (f a) :=
  @hf a top ⟨le_rfl⟩ ha

theorem fail_goes : Goes lo hi top (fail : Parser α) :=
  fun _ _ _ _ _ _ _ h => nomatch h

theorem token_goes : Goes lo hi top token := by
  rintro c _ _ hc _ _ _ ⟨⟩
  exact ⟨.refl hc, trivial⟩

theorem here_goes : Goes lo hi top here := by
  rintro c _ _ hc hlo _ _ ⟨⟩
  exact ⟨.refl hc, hlo, le_rfl⟩

theorem require_goes {b : Bool} : Goes lo hi top (require b) :=
  Goes.ite (plain_goes trivial) fail_goes

theorem skipTrivia_le {mode : TriviaMode} {input rest : List Char} {pos start : Nat}
    {newline newline' : Bool} (h : skipTrivia mode input pos newline = some (rest, start, newline')) :
    pos ≤ start := by
  fun_induction skipTrivia mode input pos newline with grind

theorem readToken_ordered {d : Cursor} {input : List Char} {pos previousEnd : Nat}
    (h : readToken input pos previousEnd = some d) (hpos : previousEnd ≤ pos) :
    Ordered d ∧ pos ≤ d.token.start ∧ d.previousEnd = previousEnd := by
  simp only [readToken, Option.pure_def, Option.bind_eq_bind, Option.bind_eq_some_iff,
    Option.some.injEq] at h
  obtain ⟨⟨rest, start, newline⟩, htrivia, ⟨kind, escaped, behind⟩, -, rfl⟩ := h
  have hstart := skipTrivia_le htrivia
  exact ⟨⟨hpos.trans hstart, Nat.le_add_right _ _⟩, hstart, rfl⟩

theorem advance_behind {c d : Cursor} {u : Unit} (hc : Ordered c) (h : advance c = some (u, d)) :
    Behind c d ∧ c.token.start ≤ d.previousEnd := by
  simp only [advance, Option.map_eq_some_iff, Prod.mk.injEq, true_and] at h
  obtain ⟨d, h, rfl⟩ := h
  obtain ⟨hd, hstart, hprevious⟩ := readToken_ordered h le_rfl
  have hrest := hc.rest
  refine ⟨⟨hd, hrest.trans hstart, ?_⟩, ?_⟩
  · exact hprevious ▸ hc.token.trans hrest
  · exact hprevious ▸ hrest

theorem advance_goes : Goes lo hi top advance :=
  fun _ _ _ hc _ _ _ h => ⟨(advance_behind hc h).1, trivial⟩

/-- What `expectKeyword` does when it succeeds. -/
theorem advance_of_expectKeyword {k : Keyword} {c d : Cursor} {u : Unit}
    (h : expectKeyword k c = some (u, d)) : advance c = some (u, d) := by
  obtain ⟨b, d', hb, h⟩ := bind_eq_some h
  obtain ⟨at_, _, ⟨⟩, hb⟩ := bind_eq_some hb
  cases b with
  | false => cases h
  | true =>
    split at hb
    next =>
      obtain ⟨_, _, hadvance, ⟨⟩⟩ := bind_eq_some hb
      cases h
      exact hadvance
    next => cases hb

/-- Once a keyword has been passed, what follows stands behind its first character. -/
theorem keyword_goes {k : Keyword} {f : Nat → Parser α}
    (hf : ∀ start, lo ≤ start → top ≤ start → Goes start start start (f start)) :
    Goes lo hi top (do let start ← here; expectKeyword k; f start) := by
  intro c e a hc hlo _ htop h
  obtain ⟨_, _, ⟨⟩, h⟩ := bind_eq_some h
  obtain ⟨_, d, hd, h⟩ := bind_eq_some h
  obtain ⟨hcd, hprevious⟩ := advance_behind hc (advance_of_expectKeyword hd)
  obtain ⟨hde, ha⟩ := hf _ hlo htop hcd.ordered hcd.token hprevious hcd.token h
  exact ⟨hcd.trans hde, Placed.mono hlo le_rfl ha⟩

/-- What is found ahead stands nowhere, since the cursor does not move there. -/
theorem lookahead_goes {p : Parser α} (hα : ∀ t (a : α), From lo t a) :
    Goes lo hi top (lookahead p) := by
  intro c d a? hc _ _ _ h
  simp only [lookahead] at h
  split at h
  all_goals
    cases h
    exact ⟨.refl hc, fun a _ => hα _ a⟩

theorem attempt_goes {p : Parser α} (hp : Goes lo hi top p) : Goes lo hi top (attempt p) := by
  intro c d a? hc hlo hhi htop h
  simp only [attempt] at h
  split at h
  next a e hpa =>
    cases h
    obtain ⟨hcd, ha⟩ := hp hc hlo hhi htop hpa
    exact ⟨hcd, from_some ha⟩
  next =>
    cases h
    exact ⟨.refl hc, nofun⟩

end Rules

/-! ## §4. Trees and lists of them. -/

section Rules

variable {lo hi top : Nat} {α : Type} [Placed α]

/-- Where something begins stands there. -/
theorem from_start {start : Nat} : From start start start :=
  ⟨le_rfl, le_rfl⟩

theorem parts {trees : List Tree} (h : From lo top trees) : Parts lo top trees :=
  fun tree ht => (h tree ht).2

theorem node_goes {kind : NodeKind} {start s t : Nat} [hs : Upto s top] [ht : Upto t top]
    {children : List Tree}
    (hstart : From lo s start) (hkind : kind ≠ .importCall) (hparts : Parts lo t children) :
    Goes lo hi top (node kind start children) := by
  rintro c _ _ hc _ _ htop ⟨⟩
  refine ⟨.refl hc, Placed.mono le_rfl (hs.le.trans htop) hstart, within_node.mpr ⟨fun h =>
    absurd h hkind, ?_⟩⟩
  exact hparts.mono le_rfl (ht.le.trans htop)

/-- A dynamic import of which a token has been read. -/
theorem importCall_goes {start t : Nat} [ht : Upto t top] {children : List Tree} (hstart : lo ≤ start)
    (hhi : start ≤ hi) (hparts : Parts lo t children) :
    Goes lo hi top (node .importCall start children) := by
  rintro c _ _ hc _ hprevious htop ⟨⟩
  have hstop : start ≤ c.previousEnd := hhi.trans hprevious
  exact ⟨.refl hc, ⟨hstart, hstop.trans hc.token⟩, within_node.mpr
    ⟨fun _ => ⟨hstart, hstop, hc.token⟩, hparts.mono le_rfl (ht.le.trans htop)⟩⟩

/-! ## §5. Tokens, repetition and names. -/

theorem atPunct_goes {p : Punct} : Goes lo hi top (atPunct p) :=
  token_goes.bind fun _ _ _ _ => plain_goes trivial

theorem atKeyword_goes {k : Keyword} : Goes lo hi top (atKeyword k) :=
  token_goes.bind fun _ _ _ _ => plain_goes trivial

theorem eat_goes {p : Punct} : Goes lo hi top (eat p) :=
  atPunct_goes.bind fun _ _ _ _ => .ite (advance_goes.bind fun _ _ _ _ =>
    plain_goes trivial) (plain_goes trivial)

theorem eatKeyword_goes {k : Keyword} : Goes lo hi top (eatKeyword k) :=
  atKeyword_goes.bind fun _ _ _ _ => .ite (advance_goes.bind fun _ _ _ _ =>
    plain_goes trivial) (plain_goes trivial)

theorem expect_goes {p : Punct} : Goes lo hi top (expect p) :=
  eat_goes.bind fun _ _ _ _ => require_goes

theorem expectKeyword_goes {k : Keyword} : Goes lo hi top (expectKeyword k) :=
  eatKeyword_goes.bind fun _ _ _ _ => require_goes

theorem atEnd_goes : Goes lo hi top atEnd := by
  refine token_goes.bind fun t _ _ _ => ?_
  split <;> exact plain_goes trivial

theorem nextToken_goes {test : Token → Bool} : Goes lo hi top (nextToken test) := by
  refine (lookahead_goes fun _ _ => trivial).bind fun t? _ _ _ => ?_
  split <;> exact plain_goes trivial

theorem canEnd_goes : Goes lo hi top canEnd := by
  refine token_goes.bind fun t _ _ _ => ?_
  split <;> exact plain_goes trivial

theorem endStatement_goes : Goes lo hi top endStatement :=
  eat_goes.bind fun _ _ _ _ => .ite (plain_goes trivial) (canEnd_goes.bind fun _ _ _ _ => require_goes)

theorem widen_goes {kind : TokenKind} {rest : List Char} : Goes lo hi top (widen kind rest) := by
  rintro c _ _ hc _ _ _ ⟨⟩
  exact ⟨⟨⟨hc.token, Nat.le_add_right _ _⟩, le_rfl, le_rfl⟩, trivial⟩

theorem many_goes {stop : Parser Bool} {item : Parser α} (hstop : Goes lo hi top stop)
    (hitem : Goes lo hi top item) : ∀ bound, Goes lo hi top (many stop item bound)
  | 0 => fail_goes
  | bound + 1 => by
    refine hstop.bind fun _ _ _ _ =>
      .ite (pure_goes from_nil) (hitem.later.bind fun first _ _ hfirst => ?_)
    exact (many_goes hstop hitem bound).later.bind fun rest _ _ hrest =>
      pure_goes (from_cons hfirst hrest)

theorem commaList_goes {close : Punct} {item : Parser α} (hitem : Goes lo hi top item) :
    ∀ bound, Goes lo hi top (commaList close item bound)
  | 0 => fail_goes
  | bound + 1 => by
    refine atPunct_goes.bind fun _ _ _ _ => .ite (plain_goes ⟨from_nil, trivial⟩) ?_
    refine hitem.later.bind fun first t _ hfirst => ?_
    have hone : From lo t ([first], false) ∧ From lo t ([first], true) :=
      ⟨⟨from_one hfirst, trivial⟩, from_one hfirst, trivial⟩
    refine atPunct_goes.bind fun _ _ _ _ => .ite (pure_goes hone.1) (expect_goes.bind fun _ _ _ _ => ?_)
    refine atPunct_goes.bind fun _ _ _ _ => .ite (pure_goes hone.2) ?_
    exact (commaList_goes hitem bound).later.bind fun others _ _ hothers =>
      pure_goes (And.intro (from_cons hfirst hothers.1) trivial)

theorem extend_goes {step : Tree → Parser (Option Tree)}
    (hstep : ∀ tree t, From lo t tree → Goes lo hi t (step tree)) :
    ∀ bound tree t, From lo t tree → Goes lo hi t (extend step bound tree)
  | 0, _, _, _ => fail_goes
  | bound + 1, tree, t, htree => by
    refine (hstep tree t htree).bind fun next? s _ hnext => ?_
    split
    next next => exact extend_goes hstep bound next s (hnext next rfl)
    next => exact pure_goes htree

theorem wordName_goes : Goes lo hi top wordName := by
  refine token_goes.bind fun t _ _ _ => ?_
  split
  next => exact advance_goes.bind fun _ _ _ _ => plain_goes trivial
  next => exact fail_goes

theorem identifierName_goes {ctx : Context} : Goes lo hi top (identifierName ctx) := by
  refine token_goes.bind fun t _ _ _ => require_goes.bind fun _ _ _ _ => ?_
  split
  next =>
    refine require_goes.bind fun _ _ _ _ => require_goes.bind fun _ _ _ _ => ?_
    exact advance_goes.bind fun _ _ _ _ => plain_goes trivial
  next => exact fail_goes

theorem bindingName_goes {ctx : Context} : Goes lo hi top (bindingName ctx) :=
  here_goes.bind fun _ _ _ hstart => identifierName_goes.bind fun _ _ _ _ => node_goes hstart nofun .nil

end Rules

/-! ## §6. Patterns. -/

section Productions

variable {lo hi top bound : Nat} {parse : ParseGoal} {ctx : Context}

theorem propertyName_goes (hp : AllGo parse) : Goes lo hi top (propertyName parse ctx) := by
  refine .bind here_goes fun start top _ hstart => ?_
  have hleaf (text? : Option (List Char)) : Goes lo hi top (do
      advance
      return (⟨← node .leaf start [], text?⟩ : PropertyName)) :=
    .bind advance_goes fun _ _ _ _ => .bind (node_goes hstart nofun .nil) fun _ _ _ ht => pure_goes ht.2
  refine .bind token_goes fun t top _ _ => ?_
  dsimp only
  split
  next => exact (hleaf _).later
  next => exact (hleaf _).later
  next => exact (hleaf _).later
  next =>
    exact .bind advance_goes fun _ _ _ _ => .bind (hp _ _ _ _ _) fun _ _ _ hkey =>
      .bind expect_goes fun _ _ _ _ => pure_goes hkey.2
  next => exact fail_goes

theorem bindingElement_goes (hp : AllGo parse) : Goes lo hi top (bindingElement parse ctx) := by
  refine .bind here_goes fun start _ _ hstart => .bind (hp _ _ _ _ _) fun target _ _ htarget => ?_
  refine .bind eat_goes fun _ _ _ _ => .ite (.bind (hp _ _ _ _ _) fun value _ _ hvalue =>
    ?_) (pure_goes htarget)
  exact node_goes hstart nofun (.cons htarget.2 (.one hvalue.2))

theorem withRest_goes {close : Punct} {item restItem : Parser Tree} (hitem : Goes lo hi top item)
    (hrest : Goes lo hi top restItem) : ∀ bound, Goes lo hi top (withRest close item restItem bound)
  | 0 => fail_goes
  | bound + 1 => by
    refine .bind atPunct_goes fun _ _ _ _ => .ite (pure_goes from_nil) ?_
    refine .bind atPunct_goes fun _ _ _ _ => .ite ?_ (.bind hitem.later fun first _ _ hfirst => ?_)
    · refine .bind here_goes fun start _ _ hstart => .bind advance_goes fun _ _ _ _ =>
        .bind hrest.later fun target _ _ ht => ?_
      refine .bind atPunct_goes fun _ _ _ _ => .bind require_goes fun _ _ _ _ => ?_
      exact .bind (node_goes hstart nofun (.one ht.2)) fun _ _ _ h => pure_goes (from_one h)
    · refine .bind atPunct_goes fun _ _ _ _ => .ite (pure_goes (from_one hfirst)) ?_
      exact .bind expect_goes fun _ _ _ _ =>
        .bind (withRest_goes hitem hrest bound).later fun rest _ _ hrest =>
        pure_goes (from_cons hfirst hrest)

theorem bindingProperty_goes (hp : AllGo parse) : Goes lo hi top (bindingProperty parse ctx) := by
  refine .bind here_goes fun start _ _ hstart => .bind token_goes fun first _ _ _ => ?_
  refine .bind nextToken_goes fun _ _ _ _ =>
    .ite (.bind bindingName_goes fun target _ _ htarget => ?_) ?_
  · refine .bind eat_goes fun _ _ _ _ => .ite (.bind (hp _ _ _ _ _) fun value _ _ hvalue =>
      ?_) (pure_goes htarget)
    exact node_goes hstart nofun (.cons htarget.2 (.one hvalue.2))
  · refine .bind (propertyName_goes hp) fun key _ _ hkey => .bind expect_goes fun _ _ _ _ => ?_
    exact .bind (bindingElement_goes hp) fun value _ _ hvalue =>
      node_goes hstart nofun (.cons hkey (.one hvalue.2))

theorem bindingPattern_goes (hp : AllGo parse) : Goes lo hi top (bindingPattern bound parse ctx) := by
  refine .bind here_goes fun start _ _ hstart => .bind token_goes fun t _ _ _ => ?_
  split
  next =>
    refine .bind advance_goes fun _ _ _ _ =>
      .bind (withRest_goes ?_ (hp _ _ _ _ _) _) fun items _ _ hitems =>
      ?_
    · refine .bind atPunct_goes fun _ _ _ _ => .ite ?_ (bindingElement_goes hp)
      exact .bind here_goes fun _ _ _ h => node_goes h nofun .nil
    · exact .bind expect_goes fun _ _ _ _ => node_goes hstart nofun (parts hitems)
  next =>
    refine .bind advance_goes fun _ _ _ _ => ?_
    refine .bind (withRest_goes (bindingProperty_goes hp) bindingName_goes _) fun items _ _ hitems => ?_
    exact .bind expect_goes fun _ _ _ _ => node_goes hstart nofun (parts hitems)
  next => exact bindingName_goes

/-! ## §7. Functions and classes. -/

theorem decorators_goes (hp : AllGo parse) : Goes lo hi top (decorators bound parse ctx) :=
  many_goes (.bind atPunct_goes fun _ _ _ _ => plain_goes trivial) (.bind advance_goes fun _ _ _ _ =>
    hp _ _ _ _ _) _

theorem parameters_goes (hp : AllGo parse) : Goes lo hi top (parameters bound parse ctx) := by
  refine .bind expect_goes fun _ _ _ _ =>
    .bind (withRest_goes ?_ (hp _ _ _ _ _) _) fun items _ _ hitems => ?_
  · refine .bind here_goes fun start _ _ hstart => .bind (decorators_goes hp) fun marks _ _ hmarks => ?_
    split
    next => exact bindingElement_goes hp
    next =>
      exact .bind (bindingElement_goes hp) fun _ _ _ ht =>
        node_goes hstart nofun ((parts hmarks).append (.one ht.2))
  · exact .bind expect_goes fun _ _ _ _ => pure_goes hitems

theorem functionRest_goes (hp : AllGo parse) {async generator : Bool} :
    Goes lo hi top (functionRest bound parse ctx async generator) := by
  refine .bind (parameters_goes hp) fun params _ _ hparams =>
    .bind (hp _ _ _ _ _) fun body _ _ hbody => ?_
  exact pure_goes (from_append hparams (from_one hbody))

theorem functionFromKeyword_goes (hp : AllGo parse) {start : Nat} (hstart : From lo top start)
    {async : Bool}
    {form : FunctionForm} : Goes lo hi top (functionFromKeyword bound parse ctx start async form) := by
  refine .bind expectKeyword_goes fun _ _ _ _ => .bind eat_goes fun generator _ _ _ => ?_
  refine .bind token_goes fun t _ _ _ =>
    .ite_bind (.map identifierName_goes fun _ _ _ => from_some trivial)
    (pure_goes from_none) fun name? _ _ _ => ?_
  refine .bind require_goes fun _ _ _ _ => .bind (functionRest_goes hp) fun rest _ _ hrest => ?_
  exact node_goes hstart nofun (parts hrest)

theorem methodRest_goes (hp : AllGo parse) {start : Nat} (hstart : From lo top start) {key : Tree}
    (hkey : key.Within lo top) {form : MethodForm} : Goes lo hi top
      (methodRest bound parse ctx start key form) := by
  unfold methodRest
  dsimp only
  split
  all_goals
    refine .bind (parameters_goes hp) fun params _ _ hparams => .bind require_goes fun _ _ _ _ => ?_
    exact .bind (hp _ _ _ _ _) fun body _ _ hbody =>
      node_goes hstart nofun (.cons hkey ((parts hparams).append (.one hbody.2)))

theorem memberName_goes (hp : AllGo parse) : Goes lo hi top (memberName parse ctx) := by
  refine .bind token_goes fun t _ _ _ => ?_
  split
  next =>
    refine .bind require_goes fun _ _ _ _ => .bind here_goes fun start _ _ hstart =>
      .bind advance_goes fun _ _ _ _ => ?_
    exact .bind (node_goes hstart nofun .nil) fun _ _ _ ht => pure_goes ht.2
  next => exact propertyName_goes hp

theorem memberModifier_goes {k : Keyword} {sameLine star : Bool} :
    Goes lo hi top (memberModifier k sameLine star) := by
  refine .bind atKeyword_goes fun _ _ _ _ => .ite ?_ (plain_goes trivial)
  exact .bind nextToken_goes fun _ _ _ _ =>
    .ite (.bind advance_goes fun _ _ _ _ => plain_goes trivial) (plain_goes trivial)

theorem fieldRest_goes (hp : AllGo parse) {start : Nat} (hstart : From lo top start) {static : Bool}
    {key : PropertyName} (hkey : From lo top key) : Goes lo hi top
      (fieldRest parse ctx start static key) := by
  refine .bind require_goes fun _ _ _ _ => .bind eat_goes fun _ top _ _ => ?_
  extract_lets next
  have hnext (value : List Tree) (t : Nat) [Step top t] (h : From lo t value) :
    Goes lo hi t (next value) :=
    .bind endStatement_goes fun _ _ _ _ => node_goes hstart nofun (.cons hkey (parts h))
  refine .ite (.bind (hp _ _ _ _ _) fun _ top _ ht => ?_) (.bind (pure_goes from_nil) (later hnext))
  exact .bind (pure_goes (from_one ht)) (later hnext)

theorem classMember_goes (hp : AllGo parse) : Goes lo hi top (classMember bound parse ctx) := by
  refine .bind here_goes fun start s _ hstart => .bind eat_goes fun _ _ _ _ =>
    .ite (node_goes hstart nofun .nil) ?_
  refine .bind (decorators_goes hp) fun marks top _ hmarks => ?_
  refine .bind atKeyword_goes fun _ _ _ _ => .bind nextToken_goes fun _ top _ _ => ?_
  extract_lets next
  have hnext (member : Tree) (t : Nat) [Step top t] (h : From lo t member) :
    Goes lo hi t (next member) := by
    unfold next
    split
    · exact pure_goes h
    · exact node_goes hstart nofun ((parts hmarks).append (.one h.2))
  refine .ite ?_ ?_
  · exact .bind advance_goes fun _ _ _ _ => .bind (hp _ _ _ _ _) (later hnext)
  refine .bind memberModifier_goes fun static top _ _ => ?_
  have hmethod (form : MethodForm) (key : PropertyName) {t : Nat} [Upto s t] (hkey : From lo t key) :
      Goes lo hi t (do
        require (memberNameAllowed static key.text? (some form))
        methodRest bound parse ctx start key.tree form) :=
    .bind require_goes fun _ _ _ _ => methodRest_goes hp (up hstart) (up hkey)
  refine .bind memberModifier_goes fun _ _ _ _ => .ite ?_ ?_
  · exact .bind (memberName_goes hp) fun key _ _ hkey => .bind (hmethod _ key hkey) (later hnext)
  refine .bind memberModifier_goes fun _ _ _ _ => .ite ?_ ?_
  · exact .bind (memberName_goes hp) fun key _ _ hkey => .bind (hmethod _ key hkey) (later hnext)
  refine .bind memberModifier_goes fun _ _ _ _ => .ite ?_ ?_
  · exact .bind (memberName_goes hp) fun key _ _ hkey =>
      .bind (fieldRest_goes hp (up hstart) hkey) (later hnext)
  refine .bind memberModifier_goes fun _ _ _ _ => .bind eat_goes fun _ top _ _ => ?_
  refine .bind (memberName_goes hp) fun key _ _ hkey => .bind atPunct_goes fun _ top _ _ => ?_
  exact .ite (.bind (hmethod _ key (up hkey)) (later hnext))
    (.bind (fieldRest_goes hp (up hstart) (up hkey)) (later hnext))

theorem classFromKeyword_goes (hp : AllGo parse) {start : Nat}
  (hstart : From lo top start) {marks : List Tree}
    (hmarks : Parts lo top marks) : Goes lo hi top (classFromKeyword bound parse ctx start marks) := by
  refine .bind expectKeyword_goes fun _ _ _ _ => .bind token_goes fun first top _ _ => ?_
  extract_lets named
  have hnamed (name? : Option Name) (t : Nat) [Step top t] (_ : From lo t name?) :
      Goes lo hi t (named name?) := by
    refine .bind eatKeyword_goes fun _ top _ _ => ?_
    extract_lets next
    have hnext (parent : List Tree) (t : Nat) [Step top t] (h : From lo t parent) :
        Goes lo hi t (next parent) := by
      refine .bind expect_goes fun _ _ _ _ =>
        .bind (many_goes atPunct_goes (classMember_goes hp) _) fun _ top _ hs => ?_
      exact .bind expect_goes fun _ _ _ _ =>
        node_goes hstart nofun ((hmarks.append (parts h)).append (parts hs))
    refine .ite (.bind (hp _ _ _ _ _) fun _ top _ ht => ?_) (.bind (pure_goes from_nil) (later hnext))
    exact .bind (pure_goes (from_one ht)) (later hnext)
  exact .ite (.bind (.map identifierName_goes fun _ _ _ => from_some trivial) (later hnamed))
    (.bind (pure_goes from_none) (later hnamed))

/-! ## §8. Markup elements. -/

theorem input_goes : Goes lo hi top input :=
  .bind token_goes fun _ _ _ _ => plain_goes fun _ _ => trivial

theorem leave_goes {rest : List Char} : Goes lo hi top (leave rest) := by
  rintro c _ _ hc _ _ _ ⟨⟩
  exact ⟨⟨⟨le_rfl, le_rfl⟩, Nat.le_add_right _ _, hc.token.trans (Nat.le_add_right _ _)⟩, trivial⟩

theorem retokenize_goes : Goes lo hi top retokenize := by
  intro c d _ hc _ _ _ h
  simp only [retokenize, Option.map_eq_some_iff, Prod.mk.injEq, true_and] at h
  obtain ⟨_, h, rfl⟩ := h
  obtain ⟨hd, hstart, hprevious⟩ := readToken_ordered h hc.token
  exact ⟨⟨hd, hstart, hprevious.ge⟩, trivial⟩

/-- Blanks are passed over from the token's own offset on, so only the input decides. -/
theorem skipBlanks_goes : Goes lo hi top skipBlanks := by
  refine .bind token_goes fun t _ _ _ => ?_
  split
  next => exact leave_goes
  next => exact fail_goes

theorem expectChar_goes {c : Char} : Goes lo hi top (expectChar c) := by
  refine .bind input_goes fun t _ _ _ => ?_
  split
  next => exact .ite leave_goes fail_goes
  next => exact fail_goes

theorem eatChar_goes {c : Char} : Goes lo hi top (eatChar c) := by
  refine .bind input_goes fun t _ _ _ => ?_
  split
  next => exact .ite (.bind leave_goes fun _ _ _ _ => plain_goes trivial) (plain_goes trivial)
  next => exact plain_goes trivial

theorem chars_from {n top : Nat} {cs : List Char} : From n top cs :=
  fun _ _ => trivial

theorem tagWord_goes : Goes lo hi top tagWord :=
  .bind input_goes fun _ _ _ _ => .bind require_goes fun _ _ _ _ => .bind leave_goes fun _ _ _ _ =>
    .bind skipBlanks_goes fun _ _ _ _ => plain_goes chars_from

theorem qualifiedWord_goes : Goes lo hi top qualifiedWord := by
  refine .bind tagWord_goes fun _ _ _ _ => .bind eatChar_goes fun _ _ _ _ =>
    .ite ?_ (plain_goes chars_from)
  exact .bind skipBlanks_goes fun _ _ _ _ => .bind tagWord_goes fun _ _ _ _ => plain_goes chars_from

theorem tagName_goes : Goes lo hi top (tagName bound) := by
  have hdot : Goes lo hi top (do return (← input).head? == some '.') :=
    .bind input_goes fun _ _ _ _ => plain_goes trivial
  refine .bind qualifiedWord_goes fun _ _ _ _ => .bind hdot.later fun _ _ _ _ =>
    .ite (plain_goes chars_from) ?_
  refine .bind require_goes fun _ _ _ _ => .bind (many_goes ?_ ?_ _) fun _ _ _ _ =>
    plain_goes chars_from
  · exact .bind hdot.later fun _ _ _ _ => plain_goes trivial
  · exact .bind expectChar_goes fun _ _ _ _ => .bind skipBlanks_goes fun _ _ _ _ =>
      .bind tagWord_goes fun _ _ _ _ =>
      .bind require_goes fun _ _ _ _ => plain_goes chars_from

theorem inBraces_goes {content : Parser (List Tree)} (hcontent : Goes lo hi top content) :
    Goes lo hi top (inBraces content) := by
  refine .bind retokenize_goes fun _ _ _ _ => .bind expect_goes fun _ _ _ _ =>
    .bind hcontent.later fun trees _ _ htrees => ?_
  refine .bind atPunct_goes fun _ _ _ _ => .bind require_goes fun _ _ _ _ =>
    .bind input_goes fun _ _ _ _ =>
    ?_
  exact .bind leave_goes fun _ _ _ _ => pure_goes htrees

theorem spreadContent_goes (hp : AllGo parse) : Goes lo hi top (spreadContent parse ctx) :=
  .bind expect_goes fun _ _ _ _ => .bind (hp _ _ _ _ _) fun _ _ _ ht => pure_goes (from_one ht)

theorem childContent_goes (hp : AllGo parse) : Goes lo hi top (childContent parse ctx) :=
  .bind atPunct_goes fun _ _ _ _ => .ite (pure_goes from_nil) (.bind atPunct_goes fun _ _ _ _ =>
    .ite (spreadContent_goes hp) (.bind (hp _ _ _ _ _) fun _ _ _ ht => pure_goes (from_one ht)))

theorem attributeValue_goes (hp : AllGo parse) : Goes lo hi top (attributeValue parse ctx) := by
  have hone {goal : Goal} : Goes lo hi top (do return [← parse goal ctx]) :=
    .bind (hp _ _ _ _ _) fun _ _ _ ht => pure_goes (from_one ht)
  refine .bind input_goes fun t top _ _ => ?_
  split
  next => exact inBraces_goes hone.later
  next => exact .bind retokenize_goes fun _ _ _ _ => hone.later
  next =>
    refine .bind require_goes fun _ top _ _ => ?_
    split
    next => exact .bind leave_goes fun _ _ _ _ => pure_goes from_nil
    next => exact fail_goes
  next => exact fail_goes

theorem markupAttribute_goes (hp : AllGo parse) : Goes lo hi top (markupAttribute parse ctx) := by
  have hrest (trees : List Tree) (t : Nat) [Step top t] (h : From lo t trees) :
      Goes lo hi t (do skipBlanks; return trees) :=
    .bind skipBlanks_goes fun _ _ _ _ => pure_goes h
  refine .bind input_goes fun _ _ _ _ =>
    .ite (.bind (inBraces_goes (spreadContent_goes hp)) (later hrest)) ?_
  refine .bind qualifiedWord_goes fun _ _ _ _ => .bind eatChar_goes fun _ _ _ _ =>
    .ite ?_ (.bind (pure_goes from_nil) (later hrest))
  exact .bind skipBlanks_goes fun _ _ _ _ => .bind (attributeValue_goes hp) (later hrest)

theorem elementChildren_goes (hp : AllGo parse) :
    ∀ bound, Goes lo hi top (elementChildren parse ctx bound)
  | 0 => fail_goes
  | bound + 1 => by
    refine .bind input_goes fun _ _ _ _ => .bind leave_goes fun _ _ _ _ =>
      .bind input_goes fun _ _ _ _ => ?_
    split
    next =>
      refine .bind (inBraces_goes (childContent_goes hp)) fun child _ _ hchild => ?_
      exact .bind (elementChildren_goes hp bound).later fun rest _ _ hrest =>
        pure_goes (from_append hchild hrest)
    next =>
      refine .bind (lookahead_goes fun _ _ => chars_from) fun closing _ _ _ => ?_
      split
      next => exact .bind leave_goes fun _ _ _ _ => pure_goes from_nil
      next =>
        refine .bind retokenize_goes fun _ _ _ _ => .bind (hp _ _ _ _ _) fun child _ _ hchild => ?_
        exact .bind (elementChildren_goes hp bound).later fun rest _ _ hrest =>
          pure_goes (from_cons hchild hrest)
    next => exact fail_goes

theorem flatten_parts {trees : List (List Tree)} (h : From lo top trees) :
    Parts lo top trees.flatten := by
  intro tree htree
  obtain ⟨group, hgroup, htree⟩ := List.mem_flatten.mp htree
  exact (h group hgroup tree htree).2

theorem markupElement_goes (hp : AllGo parse) : Goes lo hi top (markupElement bound parse ctx) := by
  refine .bind here_goes fun start _ _ hstart => .bind expectChar_goes fun _ _ _ _ =>
    .bind skipBlanks_goes fun _ top _ _ => ?_
  refine .bind input_goes fun _ top _ _ => ?_
  extract_lets atTagEnd named
  have hend : Goes lo hi top atTagEnd := .bind input_goes fun _ _ _ _ => .bind input_goes fun _ _ _ _ =>
    plain_goes trivial
  have hnamed (name : List Char) (t : Nat) [Step top t] (_ : From lo t name) :
    Goes lo hi t (named name) := by
    unfold named
    extract_lets attributed
    have hattributed (attributes : List (List Tree)) (t : Nat) [Step top t]
      (ha : From lo t attributes) :
        Goes lo hi t (attributed attributes) := by
      refine .bind eatChar_goes fun _ top _ _ => ?_
      extract_lets finished
      have hfinished (children : List Tree) (t : Nat) [Step top t] (hc : From lo t children) :
          Goes lo hi t (finished children) := by
        exact .bind expectChar_goes fun _ _ _ _ =>
          node_goes hstart nofun ((flatten_parts ha).append (parts hc))
      refine .ite (.bind skipBlanks_goes fun _ _ _ _ => .bind (pure_goes from_nil) (later hfinished)) ?_
      refine .bind expectChar_goes fun _ _ _ _ =>
        .bind (elementChildren_goes hp _) fun children top _ hchildren => ?_
      refine .bind skipBlanks_goes fun _ _ _ _ => .bind input_goes fun _ top _ _ => ?_
      extract_lets closed
      have hclosed (closing : List Char) (t : Nat) [Step top t] (_ : From lo t closing) :
          Goes lo hi t (closed closing) :=
        .bind require_goes fun _ _ _ _ => .bind (pure_goes hchildren) (later hfinished)
      exact .ite (.bind (plain_goes chars_from) (later hclosed)) (.bind tagName_goes (later hclosed))
    exact .ite (.bind (pure_goes from_nil) (later hattributed)) (.bind (many_goes hend.later
      (markupAttribute_goes hp) _) (later hattributed))
  exact .ite (.bind (plain_goes chars_from) (later hnamed)) (.bind tagName_goes (later hnamed))

/-! ## §9. Operands. -/

theorem spreadable_goes (hp : AllGo parse) : Goes lo hi top (spreadable parse ctx) := by
  refine .bind here_goes fun start _ _ hstart => .bind eat_goes fun _ _ _ _ => .ite ?_ (hp _ _ _ _ _)
  exact .bind (hp _ _ _ _ _) fun _ _ _ ht => node_goes hstart nofun (.one ht.2)

theorem callArguments_goes (hp : AllGo parse) : Goes lo hi top (callArguments bound parse ctx) :=
  .bind expect_goes fun _ _ _ _ => .bind (commaList_goes (spreadable_goes hp) _) fun _ _ _ hitems =>
    .bind expect_goes fun _ _ _ _ => pure_goes hitems.1

theorem arrayLiteral_goes (hp : AllGo parse) : Goes lo hi top (arrayLiteral bound parse ctx) := by
  refine .bind here_goes fun start _ _ hstart => .bind expect_goes fun _ _ _ _ => ?_
  refine .bind (commaList_goes (.bind atPunct_goes fun _ _ _ _ =>
    .ite ?_ (spreadable_goes hp)) _) fun _ _ _ hitems => ?_
  · exact .bind here_goes fun _ _ _ h => node_goes h nofun .nil
  · exact .bind expect_goes fun _ _ _ _ => node_goes hstart nofun (parts hitems.1)

theorem shorthandProperty_goes (hp : AllGo parse) : Goes lo hi top (shorthandProperty parse ctx) := by
  refine .bind here_goes fun start _ _ hstart => .bind identifierName_goes fun _ _ _ _ => ?_
  refine .bind eat_goes fun _ _ _ _ => .ite ?_ (node_goes hstart nofun .nil)
  exact .bind (hp _ _ _ _ _) fun _ _ _ ht => node_goes hstart nofun (.one ht.2)

theorem objectProperty_goes (hp : AllGo parse) : Goes lo hi top (objectProperty bound parse ctx) := by
  refine .bind here_goes fun start _ _ hstart => .bind atPunct_goes fun _ top _ _ =>
    .ite (spreadable_goes hp) ?_
  have hmethod {form : MethodForm} : Goes lo hi top (do
      methodRest bound parse ctx start (← propertyName parse ctx).tree form) :=
    .bind (propertyName_goes hp) fun _ _ _ hkey => methodRest_goes hp (up hstart) hkey
  refine .bind memberModifier_goes fun _ _ _ _ => .ite hmethod.later ?_
  refine .bind memberModifier_goes fun _ _ _ _ => .ite hmethod.later ?_
  refine .bind memberModifier_goes fun _ _ _ _ => .bind eat_goes fun _ _ _ _ =>
    .bind nextToken_goes fun _ top _ _ => ?_
  refine .bind token_goes fun _ _ _ _ => .ite (shorthandProperty_goes hp) ?_
  refine .bind (propertyName_goes hp) fun key _ _ hkey => .bind atPunct_goes fun _ _ _ _ => .ite ?_ ?_
  · exact methodRest_goes hp (up hstart) (up hkey)
  · exact .bind expect_goes fun _ _ _ _ => .bind (hp _ _ _ _ _) fun _ _ _ ht =>
      node_goes hstart nofun (.cons hkey (.one ht.2))

theorem objectLiteral_goes (hp : AllGo parse) : Goes lo hi top (objectLiteral bound parse ctx) :=
  .bind here_goes fun _ _ _ hstart => .bind expect_goes fun _ _ _ _ =>
    .bind (commaList_goes (objectProperty_goes hp) _) fun _ _ _ hitems =>
      .bind expect_goes fun _ _ _ _ => node_goes hstart nofun (parts hitems.1)

theorem regexLiteral_goes : Goes lo hi top regexLiteral := by
  refine .bind here_goes fun start _ _ hstart => .bind token_goes fun t _ _ _ => ?_
  split
  next => exact .bind widen_goes fun _ _ _ _ => .bind advance_goes fun _ _ _ _ =>
    node_goes hstart nofun .nil
  next => exact fail_goes

theorem templateRest_goes (hp : AllGo parse) {tagged : Bool} :
    ∀ bound, Goes lo hi top (templateRest tagged parse ctx bound)
  | 0 => fail_goes
  | bound + 1 => by
    refine .bind token_goes fun t _ _ _ => ?_
    split
    next =>
      refine .bind require_goes fun _ _ _ _ => .bind advance_goes fun _ _ _ _ =>
        .ite (pure_goes from_nil) ?_
      refine .bind (hp _ _ _ _ _) fun value _ _ hvalue => .bind atPunct_goes fun _ _ _ _ =>
        .bind require_goes fun _ _ _ _ => ?_
      refine .bind token_goes fun t _ _ _ => ?_
      dsimp only
      split
      next =>
        refine .bind widen_goes fun _ _ _ _ =>
          .bind (templateRest_goes hp bound).later fun rest _ _ hrest =>
          ?_
        exact pure_goes (from_cons hvalue hrest)
      next => exact fail_goes
    next => exact fail_goes

theorem templateLiteral_goes (hp : AllGo parse) : Goes lo hi top (templateLiteral bound parse ctx) :=
  .bind here_goes fun _ _ _ hstart => .bind (templateRest_goes hp _) fun _ _ _ hs =>
    node_goes hstart nofun (parts hs)

theorem parenthesized_goes (hp : AllGo parse) : Goes lo hi top (parenthesized parse ctx) :=
  .bind here_goes fun _ _ _ hstart => .bind expect_goes fun _ _ _ _ =>
    .bind (hp _ _ _ _ _) fun _ _ _ ht =>
    .bind expect_goes fun _ _ _ _ => node_goes hstart nofun (.one ht.2)

theorem identifier_goes {start : Nat} (hstart : From lo top start) :
    Goes lo hi top (do node (.identifier (← identifierName ctx)) start []) :=
  .bind identifierName_goes fun _ _ _ _ => node_goes hstart nofun .nil

theorem wordOperand_goes (hp : AllGo parse) : Goes lo hi top (wordOperand bound parse ctx) := by
  refine .bind here_goes fun start _ _ hstart => .bind token_goes fun t _ _ _ => ?_
  dsimp only
  split
  iterate 4 exact .bind advance_goes fun _ _ _ _ => node_goes hstart nofun .nil
  next => exact functionFromKeyword_goes hp (up hstart)
  next => exact classFromKeyword_goes hp (up hstart) nofun
  next =>
    refine .bind nextToken_goes fun _ _ _ _ => .ite ?_ (identifier_goes (up hstart))
    exact .bind advance_goes fun _ _ _ _ => functionFromKeyword_goes hp (up hstart)
  next => exact identifier_goes (up hstart)

theorem primary_goes (hp : AllGo parse) : Goes lo hi top (primary bound parse ctx) := by
  refine .bind here_goes fun start _ _ hstart => .bind token_goes fun t _ _ _ => ?_
  split
  next => exact wordOperand_goes hp
  iterate 2 exact .bind advance_goes fun _ _ _ _ => node_goes hstart nofun .nil
  next => exact templateLiteral_goes hp
  next => exact parenthesized_goes hp
  next => exact arrayLiteral_goes hp
  next => exact objectLiteral_goes hp
  iterate 2 exact regexLiteral_goes
  next =>
    exact .bind (decorators_goes hp) fun _ _ _ hmarks =>
      classFromKeyword_goes hp (up hstart) (parts hmarks)
  next =>
    exact .bind require_goes fun _ _ _ _ => .bind (hp _ _ _ _ _) fun _ _ _ ht =>
      .bind retokenize_goes fun _ _ _ _ => pure_goes ht
  next => exact fail_goes

theorem importExpression_goes (hp : AllGo parse) {calls : Bool} :
    Goes lo hi top (importExpression calls parse ctx) := by
  refine keyword_goes fun start _ _ => .bind eat_goes fun _ top _ _ => ?_
  extract_lets called phased
  have hcalled (u : Unit) : Goes start start top (called u) := by
    refine .bind require_goes fun _ _ _ _ => .bind expect_goes fun _ top _ _ => ?_
    refine .bind (hp _ _ _ _ _) fun specifier _ _ hspecifier => .bind eat_goes fun _ _ _ _ =>
      .bind atPunct_goes fun _ top _ _ => ?_
    extract_lets next
    have hnext (options : List Tree) (t : Nat) [Step top t] (h : From start t options) :
        Goes start start t (next options) :=
      .bind expect_goes fun _ _ _ _ => importCall_goes le_rfl le_rfl (.cons hspecifier.2 (parts h))
    refine .ite (.bind (hp _ _ _ _ _) fun _ _ _ ht => .bind eat_goes fun _ top _ _ =>
      ?_) (.bind (pure_goes from_nil) (later hnext))
    exact .bind (pure_goes (from_one ht)) (later hnext)
  have hphased (b : Bool) (t : Nat) [Step top t] (_ : From start t b) : Goes start start t (phased b) :=
    .bind require_goes fun u _ _ _ => (hcalled u).later
  refine .ite (.bind eatKeyword_goes fun _ _ _ _ =>
    .ite (node_goes from_start nofun .nil) ?_) (hcalled ())
  exact .bind eatKeyword_goes fun _ _ _ _ =>
    .ite (.bind (plain_goes trivial) (later hphased)) (.bind eatKeyword_goes (later hphased))

theorem superExpression_goes {calls : Bool} : Goes lo hi top (superExpression calls) := by
  refine .bind here_goes fun start _ _ hstart => .bind expectKeyword_goes fun _ top _ _ => ?_
  refine .bind nextToken_goes fun _ _ _ _ => .bind token_goes fun t top _ _ => ?_
  extract_lets next
  have hnext (u : Unit) (t : Nat) [Step top t] (_ : From lo t u) : Goes lo hi t
    (next u) := node_goes hstart nofun .nil
  split
  next => exact .bind require_goes (later hnext)
  next => exact now hnext () trivial
  next => exact .bind require_goes (later hnext)
  next => exact .bind fail_goes (later hnext)

theorem newExpression_goes (hp : AllGo parse) : Goes lo hi top (newExpression bound parse ctx) := by
  refine .bind here_goes fun start _ _ hstart => .bind expectKeyword_goes fun _ _ _ _ =>
    .bind eat_goes fun _ _ _ _ => ?_
  refine .ite (.bind expectKeyword_goes fun _ _ _ _ => node_goes hstart nofun .nil) ?_
  refine .bind (hp _ _ _ _ _) fun callee _ _ hcallee => .bind atPunct_goes fun _ _ _ _ =>
    .bind require_goes fun _ _ _ _ => ?_
  refine .bind atPunct_goes fun _ _ _ _ =>
    .ite_bind (callArguments_goes hp) (pure_goes from_nil) fun args _ _ hargs => ?_
  exact node_goes hstart nofun (.cons hcallee.2 (parts hargs))

theorem memberBase_goes (hp : AllGo parse) {calls : Bool} :
    Goes lo hi top (memberBase bound calls parse ctx) := by
  refine .bind token_goes fun t _ _ _ => ?_
  split
  next => exact newExpression_goes hp
  next => exact superExpression_goes
  next => exact importExpression_goes hp
  next => exact primary_goes hp

/-! ## §10. Members and operators. -/

theorem memberWord_goes : Goes lo hi top memberWord := by
  refine .bind token_goes fun t _ _ _ => ?_
  split
  next => exact advance_goes
  next => exact advance_goes
  next => exact fail_goes

theorem splitChain_within {tree : Tree} (h : tree.Within lo top) :
    (splitChain tree).1.Within lo top := by
  unfold splitChain
  split
  next => exact (Tree.within_node.mp h).2 _ List.mem_cons_self
  next => exact h

theorem memberLink_goes (hp : AllGo parse) {calls : Bool} (tree : Tree) (top : Nat)
  (htree : From lo top tree) :
    Goes lo hi top (memberLink bound calls parse ctx tree) := by
  unfold memberLink
  extract_lets start
  rcases h : splitChain tree with ⟨inner, chained⟩
  have hinner : inner.Within lo top := by simpa [h] using splitChain_within htree.2
  dsimp -zeta only
  extract_lets link index
  have hlink (chained : Bool) (kind : NodeKind) (hkind : kind ≠ .importCall) {children : List Tree}
    {s t : Nat}
      [Upto s t] [Upto top t] (hchildren : Parts lo s children) : Goes lo hi t
        (link chained kind children) := by
    refine .bind (node_goes htree.1 hkind (.cons hinner hchildren)) fun linked top _ hlinked => ?_
    exact .ite (.map (node_goes htree.1 nofun (.one hlinked.2)) fun _ _ => from_some)
      (pure_goes (from_some hlinked))
  have hindex (chained : Bool) : Goes lo hi top (index chained) :=
    .bind expect_goes fun _ _ _ _ => .bind (hp _ _ _ _ _) fun _ _ _ ht =>
      .bind expect_goes fun _ _ _ _ => hlink _ .index nofun (.one ht.2)
  have hcall (chained : Bool) :
    Goes lo hi top (do link chained .call (← callArguments bound parse ctx)) :=
    .bind (callArguments_goes hp) fun _ _ _ hargs => hlink _ .call nofun (parts hargs)
  refine .bind token_goes fun t top _ _ => ?_
  split
  next =>
    exact .bind advance_goes fun _ _ _ _ => .bind memberWord_goes fun _ _ _ _ =>
      hlink _ .member nofun .nil
  next =>
    refine .ite (.bind advance_goes fun _ _ _ _ => .bind token_goes fun t top _ _ => ?_)
      (pure_goes from_none)
    split
    next => exact (hcall _).later
    next => exact (hindex _).later
    next => exact .bind memberWord_goes fun _ _ _ _ => hlink _ .member nofun .nil
  next => exact .ite (pure_goes from_none) (hindex _).later
  next => exact .ite (hcall _).later (pure_goes from_none)
  next =>
    exact .bind require_goes fun _ _ _ _ => .bind (templateRest_goes hp _) fun _ _ _ hs =>
      hlink _ .template nofun (parts hs)
  next => exact pure_goes from_none

theorem members_goes (hp : AllGo parse) {calls : Bool} :
    Goes lo hi top (members bound calls parse ctx) :=
  .bind (memberBase_goes hp) fun _ _ _ hbase =>
    extend_goes (memberLink_goes hp) _ _ _ hbase

theorem updated_goes (hp : AllGo parse) : Goes lo hi top (updated parse ctx) := by
  refine .bind (hp _ _ _ _ _) fun operand _ _ hoperand => .bind token_goes fun t _ _ _ =>
    .ite ?_ (pure_goes hoperand)
  exact .bind require_goes fun _ _ _ _ => .bind advance_goes fun _ _ _ _ =>
    node_goes hoperand.1 nofun (.one hoperand.2)

theorem unary_goes (hp : AllGo parse) : Goes lo hi top (unary parse ctx) := by
  refine .bind here_goes fun start _ _ hstart => .bind token_goes fun t top _ _ => ?_
  extract_lets prefixed
  have hprefixed : Goes lo hi top prefixed :=
    .bind advance_goes fun _ _ _ _ => .bind (hp _ _ _ _ _) fun _ _ _ ht =>
      node_goes hstart nofun (.one ht.2)
  have hstep : Goes lo hi top (do
      advance
      let operand ← parse .unary ctx
      require operand.isSimpleTarget
      node .other start [operand]) :=
    .bind advance_goes fun _ _ _ _ => .bind (hp _ _ _ _ _) fun _ _ _ ht =>
      .bind require_goes fun _ _ _ _ => node_goes hstart nofun (.one ht.2)
  split
  iterate 4 exact hprefixed
  iterate 2 exact hstep
  next =>
    split
    iterate 3 exact hprefixed
    next =>
      exact .ite hprefixed (.bind nextToken_goes fun _ _ _ _ => .bind require_goes fun _ _ _ _ =>
        updated_goes hp)
    next => exact updated_goes hp

theorem binaryOperator?_kind {t : Token} {operator : BinaryOperator}
    (h : binaryOperator? ctx t = some operator) : operator.kind ≠ .importCall := by
  unfold binaryOperator? at h
  split at h
  all_goals try (cases h; nofun)
  split at h
  next => cases h; nofun
  next => split at h <;> cases h; nofun
  next => cases h

theorem binaryStep_goes (hp : AllGo parse) {above : Nat} (left : Tree) (top : Nat)
  (hleft : From lo top left) :
    Goes lo hi top (binaryStep parse ctx above left) := by
  refine .bind token_goes fun t _ _ _ => ?_
  split
  next => exact pure_goes from_none
  next operator h =>
    refine .ite (pure_goes from_none) (.bind require_goes fun _ _ _ _ =>
      .bind advance_goes fun _ _ _ _ => ?_)
    refine .bind (hp _ _ _ _ _) fun right _ _ hright => .bind require_goes fun _ _ _ _ => ?_
    exact .map (node_goes hleft.1 (binaryOperator?_kind h) (.cons hleft.2 (.one hright.2)))
      fun _ _ => from_some

theorem privateTest_goes (hp : AllGo parse) {above : Nat} :
    Goes lo hi top (privateTest parse ctx above) :=
  .bind here_goes fun _ _ _ hstart => .bind require_goes fun _ _ _ _ =>
    .bind advance_goes fun _ _ _ _ =>
    .bind expectKeyword_goes fun _ _ _ _ => .bind (hp _ _ _ _ _) fun _ _ _ ht =>
      node_goes hstart nofun (.one ht.2)

theorem binary_goes (hp : AllGo parse) {above : Nat} :
    Goes lo hi top (binary bound parse ctx above) := by
  refine .bind token_goes fun t top _ _ => ?_
  extract_lets next
  have hnext (first : Tree) (t : Nat) [Step top t] (h : From lo t first) : Goes lo hi t (next first) :=
    extend_goes (binaryStep_goes hp) _ _ _ h
  split
  next => exact .bind (privateTest_goes hp) (later hnext)
  next => exact .bind (hp _ _ _ _ _) (later hnext)

/-! ## §11. Assignments. -/

theorem expectArrow_goes : Goes lo hi top expectArrow :=
  .bind token_goes fun _ _ _ _ => .bind require_goes fun _ _ _ _ => advance_goes

theorem arrowHead_goes (hp : AllGo parse) : Goes lo hi top (arrowHead bound parse ctx) := by
  refine .bind atKeyword_goes fun _ _ _ _ => .bind nextToken_goes fun _ top _ _ => ?_
  extract_lets inner headed
  have hheaded (async : Bool) (t : Nat) [Step top t] (_ : From lo t async) :
    Goes lo hi t (headed async) := by
    refine .bind atPunct_goes fun _ top _ _ => ?_
    extract_lets next
    have hnext (params : List Tree) (t : Nat) [Step top t] (h : From lo t params) :
        Goes lo hi t (next params) :=
      .bind expectArrow_goes fun _ _ _ _ => pure_goes ⟨trivial, h⟩
    refine .ite (.bind (parameters_goes hp) (later hnext)) (.bind bindingName_goes fun _ top _ ht => ?_)
    exact .bind (pure_goes (from_one ht)) (later hnext)
  exact .ite (.bind advance_goes fun _ _ _ _ => .bind (plain_goes trivial) (later hheaded))
    (.bind (plain_goes trivial) (later hheaded))

theorem arrowBody_goes (hp : AllGo parse) {async : Bool} : Goes lo hi top (arrowBody parse ctx async) :=
  .bind atPunct_goes fun _ _ _ _ => .ite (hp _ _ _ _ _) (hp _ _ _ _ _)

theorem yieldExpression_goes (hp : AllGo parse) : Goes lo hi top (yieldExpression parse ctx) := by
  refine .bind here_goes fun start _ _ hstart => .bind advance_goes fun _ _ _ _ =>
    .bind token_goes fun t _ _ _ => ?_
  refine .ite (node_goes hstart nofun .nil) (.bind eat_goes fun _ _ _ _ => ?_)
  exact .ite (node_goes hstart nofun .nil)
    (.bind (hp _ _ _ _ _) fun _ _ _ ht => node_goes hstart nofun (.one ht.2))

theorem conditional_goes (hp : AllGo parse) : Goes lo hi top (conditional parse ctx) := by
  refine .bind (hp _ _ _ _ _) fun test _ _ htest => .bind eat_goes fun _ _ _ _ =>
    .ite ?_ (pure_goes htest)
  exact .bind (hp _ _ _ _ _) fun _ _ _ h => .bind expect_goes fun _ _ _ _ =>
    .bind (hp _ _ _ _ _) fun _ _ _ h' =>
    node_goes htest.1 nofun (.cons htest.2 (.cons h.2 (.one h'.2)))

theorem assignmentRest_goes (hp : AllGo parse) (left : Tree) (top : Nat) (hleft : From lo top left) :
    Goes lo hi top (assignmentRest parse ctx left) := by
  refine .bind token_goes fun t top _ _ => ?_
  have hcompound : Goes lo hi top (do
      require left.isSimpleTarget
      advance
      node .binary left.range.start [left, ← parse .assignment ctx]) :=
    .bind require_goes fun _ _ _ _ => .bind advance_goes fun _ _ _ _ =>
      .bind (hp _ _ _ _ _) fun _ _ _ h =>
      node_goes hleft.1 nofun (.cons hleft.2 (.one h.2))
  split
  next =>
    split
    next target h =>
      refine .bind advance_goes fun _ _ _ _ => .bind (hp _ _ _ _ _) fun value top _ hvalue => ?_
      exact node_goes hleft.1 nofun (.cons (Tree.toTarget?_within hleft.2 h) (.one hvalue.2))
    next => exact fail_goes
  iterate 2 exact hcompound
  next => exact pure_goes hleft

theorem assignment_goes (hp : AllGo parse) : Goes lo hi top (assignment bound parse ctx) := by
  refine .bind here_goes fun start _ _ hstart => .bind token_goes fun t top _ _ => ?_
  extract_lets next begun
  have hnext (head? : Option (Bool × List Tree)) (t : Nat) [Step top t] (h : From lo t head?) :
      Goes lo hi t (next head?) := by
    unfold next
    split
    next async params =>
      exact .bind (arrowBody_goes hp) fun body _ _ hbody =>
        node_goes hstart nofun ((parts (h _ rfl).2).append (.one hbody.2))
    next => exact .bind (conditional_goes hp) fun left t _ hleft => assignmentRest_goes hp left t hleft
  have hbegun (u : Unit) (t : Nat) [Step top t] (_ : From lo t u) : Goes lo hi t (begun u) :=
    .ite_bind (attempt_goes (arrowHead_goes hp)) (pure_goes from_none) (later hnext)
  refine .ite (.ite (yieldExpression_goes hp) ?_) (now hbegun () trivial)
  exact .bind nextToken_goes fun _ _ _ _ => .bind require_goes (later hbegun)

theorem expression_goes (hp : AllGo parse) : Goes lo hi top (expression bound parse ctx) := by
  refine .bind here_goes fun start _ _ hstart => .bind (hp _ _ _ _ _) fun first _ _ hfirst => ?_
  refine .bind atPunct_goes fun _ _ _ _ => .ite (.bind (many_goes ?_ ?_ _) fun others _ _ hothers =>
    ?_) (pure_goes hfirst)
  · exact .bind atPunct_goes fun _ _ _ _ => plain_goes trivial
  · exact .bind advance_goes fun _ _ _ _ => hp _ _ _ _ _
  · exact node_goes hstart nofun (.cons hfirst.2 (parts hothers))

/-! ## §12. Import and export declarations. -/

theorem exportName_goes : Goes lo hi top exportName := by
  refine .bind token_goes fun t _ _ _ => ?_
  split
  next => exact .bind advance_goes fun _ _ _ _ => plain_goes trivial
  next => exact .bind require_goes fun _ _ _ _ => .bind advance_goes fun _ _ _ _ => plain_goes trivial
  next => exact fail_goes

theorem stringValue_goes : Goes lo hi top stringValue := by
  refine .bind token_goes fun t _ _ _ => ?_
  split
  next => exact .bind advance_goes fun _ _ _ _ => plain_goes trivial
  next => exact fail_goes

theorem importAttribute_goes : Goes lo hi top importAttribute := by
  refine .bind token_goes fun t top _ _ => ?_
  extract_lets next
  have hnext (key : List Char) (t : Nat) [Step top t] (_ : From lo t key) : Goes lo hi t (next key) :=
    .bind advance_goes fun _ _ _ _ => .bind expect_goes fun _ _ _ _ =>
      .bind stringValue_goes fun _ _ _ _ =>
      plain_goes chars_from
  split
  next => exact .bind (plain_goes chars_from) (later hnext)
  next => exact .bind (plain_goes chars_from) (later hnext)
  next => exact .bind fail_goes (later hnext)

theorem importAttributes_goes : Goes lo hi top (importAttributes bound) := by
  refine .bind token_goes fun t _ _ _ => .ite ?_ (plain_goes trivial)
  refine .bind advance_goes fun _ _ _ _ => .bind expect_goes fun _ _ _ _ => ?_
  exact .bind (commaList_goes importAttribute_goes _) fun _ _ _ _ => .bind require_goes fun _ _ _ _ =>
    expect_goes

theorem sourceModule_goes : Goes lo hi top (sourceModule bound) :=
  .bind stringValue_goes fun _ _ _ _ => .bind importAttributes_goes fun _ _ _ _ =>
    .bind endStatement_goes fun _ _ _ _ => plain_goes trivial

theorem bindings_from {n top : Nat} {bindings : List ImportBinding} : From n top bindings :=
  fun _ _ => trivial

theorem importMember_goes : Goes lo hi top (importMember ctx) := by
  refine .bind token_goes fun t _ _ _ => .bind exportName_goes fun imported _ _ _ => ?_
  refine .bind eatKeyword_goes fun _ _ _ _ => .ite (.bind identifierName_goes fun _ _ _ _ =>
    plain_goes trivial) ?_
  refine .bind require_goes fun _ _ _ _ => ?_
  split
  next => exact .bind require_goes fun _ _ _ _ => plain_goes trivial
  next => exact fail_goes

theorem importAll_goes : Goes lo hi top (importAll ctx) :=
  .bind expect_goes fun _ _ _ _ => .bind expectKeyword_goes fun _ _ _ _ =>
    .bind identifierName_goes fun _ _ _ _ =>
    plain_goes trivial

theorem importList_goes : Goes lo hi top (importList bound ctx) :=
  .bind expect_goes fun _ _ _ _ => .bind (commaList_goes importMember_goes _) fun _ _ _ _ =>
    .bind expect_goes fun _ _ _ _ => plain_goes bindings_from

theorem importBindings_goes : Goes lo hi top (importBindings bound ctx) := by
  refine .bind token_goes fun t _ _ _ => ?_
  split
  next => exact .bind importAll_goes fun _ _ _ _ => plain_goes bindings_from
  next => exact importList_goes
  next =>
    refine .bind identifierName_goes fun _ _ _ _ => .bind eat_goes fun _ _ _ _ =>
      .ite ?_ (plain_goes bindings_from)
    refine .bind atPunct_goes fun _ _ _ _ => .ite ?_ ?_
    · exact .bind importAll_goes fun _ _ _ _ => plain_goes bindings_from
    · exact .bind importList_goes fun _ _ _ _ => plain_goes bindings_from

theorem phasedBindings_goes : Goes lo hi top (phasedBindings ctx) := by
  refine .bind eatKeyword_goes fun _ top _ _ => ?_
  extract_lets next
  have hnext (bindings : List ImportBinding) (t : Nat) [Step top t] (_ : From lo t bindings) :
      Goes lo hi t (next bindings) :=
    .bind expectKeyword_goes fun _ _ _ _ => plain_goes bindings_from
  refine .ite (.bind importAll_goes fun _ _ _ _ => .bind (plain_goes bindings_from) (later hnext)) ?_
  exact .bind expectKeyword_goes fun _ _ _ _ => .bind identifierName_goes fun _ _ _ _ =>
    .bind (plain_goes bindings_from) (later hnext)

/-- A declaration of which a token has been read, without trees. -/
theorem declaration_goes {start : Nat} {f : Range → ModuleItem} (hstart : lo ≤ start) (hhi : start ≤ hi)
    (hf : ∀ range, (f range).range = range ∧ (f range).trees = []) :
    Goes lo hi top (do return f (← rangeFrom start)) := by
  rintro c _ _ hc _ hprevious _ ⟨⟩
  obtain ⟨hrange, htrees⟩ := hf ⟨start, c.previousEnd⟩
  have hstop : start ≤ c.previousEnd := hhi.trans hprevious
  have hwithin : (f ⟨start, c.previousEnd⟩).range.Within lo c.token.start := by
    rw [hrange]
    exact ⟨hstart, hstop, hc.token⟩
  refine ⟨.refl hc, ⟨hwithin.start, hwithin.forward.trans hwithin.stop⟩, fun _ => hwithin, ?_, ?_, ?_⟩
  · rintro _ tree (h | h)
    all_goals
      rw [h] at htrees
      cases htrees
  all_goals simp [htrees]

theorem importItem_goes : Goes lo hi top (importItem bound ctx) := by
  refine keyword_goes fun start _ _ => .bind token_goes fun t top _ _ => ?_
  split
  next =>
    exact .bind sourceModule_goes fun _ _ _ _ => declaration_goes le_rfl le_rfl fun _ => ⟨rfl, rfl⟩
  next =>
    refine .bind (attempt_goes phasedBindings_goes) fun bindings? top _ _ => ?_
    extract_lets next
    have hnext (bindings : List ImportBinding) (t : Nat) [Step top t] (_ : From start t bindings) :
        Goes start start t (next bindings) :=
      .bind sourceModule_goes fun _ _ _ _ => declaration_goes le_rfl le_rfl fun _ => ⟨rfl, rfl⟩
    split
    next => exact .bind (plain_goes bindings_from) (later hnext)
    next =>
      exact .bind importBindings_goes fun _ _ _ _ => .bind expectKeyword_goes fun _ _ _ _ =>
        .bind (plain_goes bindings_from) (later hnext)

theorem exportMember_goes : Goes lo hi top exportMember := by
  refine .bind token_goes fun t _ _ _ => .bind exportName_goes fun source _ _ _ => ?_
  exact .bind eatKeyword_goes fun _ _ _ _ =>
    .ite_bind exportName_goes (plain_goes trivial) fun exported _ _ _ => plain_goes ⟨trivial, trivial⟩

theorem exportListItem_goes {start : Nat} (hstart : lo ≤ start) (hhi : start ≤ hi) :
    Goes lo hi top (exportListItem bound start) := by
  refine .bind expect_goes fun _ _ _ _ =>
    .bind (commaList_goes exportMember_goes _) fun members _ _ _ => ?_
  refine .bind expect_goes fun _ _ _ _ => .bind atKeyword_goes fun _ _ _ _ =>
    .bind nextToken_goes fun _ _ _ _ => .ite ?_ ?_
  · exact .bind advance_goes fun _ _ _ _ => .bind sourceModule_goes fun _ _ _ _ =>
      declaration_goes hstart hhi fun _ => ⟨rfl, rfl⟩
  · exact .bind require_goes fun _ _ _ _ => .bind endStatement_goes fun _ _ _ _ =>
      declaration_goes hstart hhi fun _ => ⟨rfl, rfl⟩

theorem exportAllItem_goes {start : Nat} (hstart : lo ≤ start) (hhi : start ≤ hi) :
    Goes lo hi top (exportAllItem bound start) := by
  refine .bind expect_goes fun _ _ _ _ => .bind eatKeyword_goes fun _ _ _ _ => ?_
  refine .ite_bind (.map exportName_goes fun _ _ _ =>
    from_some trivial) (pure_goes from_none) fun name? _ _ _ => ?_
  exact .bind expectKeyword_goes fun _ _ _ _ => .bind sourceModule_goes fun _ _ _ _ =>
    declaration_goes hstart hhi fun _ => ⟨rfl, rfl⟩

theorem atFunction_goes : Goes lo hi top atFunction :=
  .bind atKeyword_goes fun _ _ _ _ => .ite (plain_goes trivial)
    (.bind atKeyword_goes fun _ _ _ _ => .ite nextToken_goes (plain_goes trivial))

theorem functionDeclaration_goes (hp : AllGo parse) {form : FunctionForm} :
    Goes lo hi top (functionDeclaration bound parse ctx form) :=
  .bind here_goes fun _ _ _ hstart => .bind eatKeyword_goes fun _ _ _ _ =>
    functionFromKeyword_goes hp (up hstart)

theorem decoratedClass_goes (hp : AllGo parse) : Goes lo hi top (decoratedClass bound parse ctx []) :=
  .bind here_goes fun _ _ _ hstart => .bind (decorators_goes hp) fun _ _ _ hinner =>
    .bind require_goes fun _ _ _ _ =>
    classFromKeyword_goes hp (up hstart) (parts (up hinner))

/-- An export of a tree, which stands behind the words before it. -/
theorem export_goes {start t : Nat} [ht : Upto t top] {f : Range → Tree → ModuleItem}
    (hstart : lo ≤ start)
  (hhi : start ≤ hi)
    {tree : Tree} (htree : From start t tree) (hf : f = .exportDeclaration ∨ f = .exportDefault) :
    Goes lo hi top (do return f (← rangeFrom start) tree) := by
  rintro c _ _ hc _ hprevious htop ⟨⟩
  have hrange : Range.Within lo c.token.start ⟨start, c.previousEnd⟩ :=
    ⟨hstart, hhi.trans hprevious, hc.token⟩
  have hwithin : tree.Within start c.token.start := htree.2.mono le_rfl (ht.le.trans htop)
  rcases hf with rfl | rfl
  all_goals
    refine ⟨.refl hc, ⟨hstart, hrange.forward.trans hrange.stop⟩, fun _ => hrange, ?_, ?_, ?_⟩
    · rintro _ _ (⟨⟨⟩⟩ | ⟨⟨⟩⟩)
      exact ⟨htree.1.1, htree.1.2.trans (ht.le.trans htop)⟩
    · exact List.forall_mem_singleton.mpr (hwithin.mono hstart le_rfl)
    · exact fun _ => List.forall_mem_singleton.mpr fun s hs hkind => .inr (hwithin s hs hkind).start

theorem exportDefaultItem_goes (hp : AllGo parse) {start : Nat} (hstart : lo ≤ start) (hhi : start ≤ hi)
    (hlo : start ≤ lo) : Goes lo hi top (exportDefaultItem bound parse ctx start []) := by
  have hexport {tree : Tree} {s t : Nat} [Upto s t] (htree : From lo s tree) :
      Goes lo hi t (do return ModuleItem.exportDefault (← rangeFrom start) tree) :=
    export_goes hstart hhi (Placed.mono hlo le_rfl htree) (.inr rfl)
  refine .bind atKeyword_goes fun _ _ _ _ => .bind atPunct_goes fun _ _ _ _ => .ite ?_ ?_
  · exact .bind (decoratedClass_goes hp) fun _ _ _ ht => hexport ht
  refine .bind require_goes fun _ _ _ _ => .bind atFunction_goes fun _ _ _ _ => .ite ?_ ?_
  · exact .bind (functionDeclaration_goes hp) fun _ _ _ ht => hexport ht
  · exact .bind (hp _ _ _ _ _) fun _ _ _ ht => .bind endStatement_goes fun _ _ _ _ => hexport ht

/-- An export without decorators before it. -/
theorem plainExport_goes (hp : AllGo parse) : Goes lo hi top (exportItem bound parse ctx []) := by
  refine keyword_goes fun start _ _ => ?_
  have hexport {tree : Tree} {s t : Nat} [Upto s t] (htree : From start s tree) :
      Goes start start t (do return ModuleItem.exportDeclaration (← rangeFrom start) tree) :=
    export_goes le_rfl le_rfl htree (.inl rfl)
  refine .bind eatKeyword_goes fun _ _ _ _ => .ite (exportDefaultItem_goes hp le_rfl le_rfl le_rfl) ?_
  refine .bind atKeyword_goes fun _ _ _ _ => .bind atPunct_goes fun _ _ _ _ => .ite ?_ ?_
  · exact .bind (decoratedClass_goes hp) fun _ _ _ ht => hexport ht
  refine .bind require_goes fun _ _ _ _ => .bind token_goes fun t _ _ _ => ?_
  split
  next => exact exportAllItem_goes le_rfl le_rfl
  next => exact exportListItem_goes le_rfl le_rfl
  next =>
    exact .bind require_goes fun _ _ _ _ => .bind (hp _ _ _ _ _) fun _ _ _ ht =>
      .bind require_goes fun _ _ _ _ =>
      hexport ht
  next => exact fail_goes

theorem bind_of_some {α β : Type} {p : Parser α} {f : α → Parser β} {c d : Cursor} {a : α}
    (h : p c = some (a, d)) : (p >>= f) c = f a d := by
  show Option.bind (p c) _ = _
  rw [h]
  rfl

/-- Decorators of a class are passed on to its tree. -/
theorem classFromKeyword_marked {start : Nat} {outer inner : List Tree} :
    classFromKeyword bound parse ctx start (outer ++ inner)
      = Tree.marked outer <$> classFromKeyword bound parse ctx start inner := by
  have hnode (name? : Option Name) (parts : List Tree) :
      node (.class_ name?) start (outer ++ parts) = Tree.marked outer <$> node
        (.class_ name?) start parts := rfl
  simp only [classFromKeyword, map_bind, List.append_assoc, hnode, apply_ite (Functor.map
    (Tree.marked outer))]

theorem decoratedClass_marked {outer : List Tree} (hne : outer ≠ []) {c d : Cursor} {tree : Tree}
    (h : decoratedClass bound parse ctx outer c = some (tree, d)) :
    ∃ plain, decoratedClass bound parse ctx [] c = some (plain, d) ∧ tree = plain.marked outer := by
  obtain ⟨start, c₁, hstart, h⟩ := bind_eq_some h
  obtain ⟨inner, c₂, hinner, h⟩ := bind_eq_some h
  obtain ⟨_, c₃, hrequire, hclass⟩ := bind_eq_some h
  -- a class has its decorators in one place, so here it has none of its own
  rw [show outer.isEmpty = false by simpa using hne, Bool.false_or] at hrequire
  obtain rfl : c₃ = c₂ := by
    unfold require at hrequire
    split at hrequire
    · exact (congrArg Prod.snd (Option.some.inj hrequire)).symm
    · cases hrequire
  rw [classFromKeyword_marked, map_eq_pure_bind] at hclass
  obtain ⟨plain, _, hplain, ⟨⟩⟩ := bind_eq_some hclass
  exact ⟨plain, (bind_of_some hstart).trans ((bind_of_some hinner).trans hplain), rfl⟩

theorem exportDefaultItem_marked {start : Nat} {marks : List Tree}
  (hne : marks ≠ []) {c d : Cursor} {item : ModuleItem}
    (h : exportDefaultItem bound parse ctx start marks c = some (item, d)) :
    ∃ plain, exportDefaultItem bound parse ctx start [] c = some (plain, d)
      ∧ item = plain.marked marks := by
  obtain ⟨isClass, c₁, hclass, h⟩ := bind_eq_some h
  obtain ⟨isMark, c₂, hmark, h⟩ := bind_eq_some h
  split at h
  next hif =>
    obtain ⟨tree, c₃, htree, h⟩ := bind_eq_some h
    obtain ⟨plain, hplain, rfl⟩ := decoratedClass_marked hne htree
    obtain ⟨range, _, hrange, ⟨⟩⟩ := bind_eq_some h
    refine ⟨.exportDefault range plain,
      (bind_of_some hclass).trans ((bind_of_some hmark).trans ?_), rfl⟩
    rw [if_pos hif]
    exact (bind_of_some hplain).trans ((bind_of_some hrange).trans rfl)
  next =>
    obtain ⟨_, _, hrequire, -⟩ := bind_eq_some h
    simp [require, hne, fail] at hrequire

/-- Only a class has decorators, which are passed on to its tree. -/
theorem exportItem_marked {marks : List Tree} (hne : marks ≠ []) {c d : Cursor} {item : ModuleItem}
    (h : exportItem bound parse ctx marks c = some (item, d)) :
    ∃ plain, exportItem bound parse ctx [] c = some (plain, d) ∧ item = plain.marked marks := by
  obtain ⟨start, c₁, hstart, h⟩ := bind_eq_some h
  obtain ⟨_, c₂, hexport, h⟩ := bind_eq_some h
  obtain ⟨isDefault, c₃, hdefault, h⟩ := bind_eq_some h
  split at h
  next hif =>
    obtain ⟨plain, hplain, rfl⟩ := exportDefaultItem_marked hne h
    refine ⟨plain, (bind_of_some hstart).trans ((bind_of_some hexport).trans
      ((bind_of_some hdefault).trans ?_)), rfl⟩
    rw [if_pos hif]
    exact hplain
  next hif =>
    obtain ⟨isClass, c₄, hclass, h⟩ := bind_eq_some h
    obtain ⟨isMark, c₅, hmark, h⟩ := bind_eq_some h
    split at h
    next hif' =>
      obtain ⟨tree, c₆, htree, h⟩ := bind_eq_some h
      obtain ⟨plain, hplain, rfl⟩ := decoratedClass_marked hne htree
      obtain ⟨range, _, hrange, ⟨⟩⟩ := bind_eq_some h
      refine ⟨.exportDeclaration range plain,
        (bind_of_some hstart).trans
          ((bind_of_some hexport).trans ((bind_of_some hdefault).trans ?_)), rfl⟩
      rw [if_neg hif]
      refine (bind_of_some hclass).trans ((bind_of_some hmark).trans ?_)
      rw [if_pos hif']
      exact (bind_of_some hplain).trans ((bind_of_some hrange).trans rfl)
    next =>
      obtain ⟨_, _, hrequire, -⟩ := bind_eq_some h
      simp [require, hne, fail] at hrequire

theorem marked_range {marks : List Tree} (tree : Tree) : (tree.marked marks).range = tree.range := by
  cases tree
  rfl

theorem mem_subtrees_marked {s tree : Tree} {marks : List Tree} (h : s ∈ (tree.marked marks).subtrees) :
    (∃ mark ∈ marks, s ∈ mark.subtrees) ∨ ∃ t ∈ tree.subtrees, s.kind = t.kind ∧ s.range = t.range := by
  obtain ⟨kind, range, parts⟩ := tree
  rcases mem_subtrees_node.mp h with rfl | ⟨t, ht, hs⟩
  · exact .inr ⟨.node kind range parts, mem_subtrees_node.mpr (.inl rfl), rfl, rfl⟩
  rcases List.mem_append.mp ht with ht | ht
  · exact .inl ⟨t, ht, hs⟩
  · exact .inr ⟨s, mem_subtrees_node.mpr (.inr ⟨t, ht, hs⟩), rfl, rfl⟩

/-- Decorators that stand before an item stand before the words that its lowering replaces. -/
theorem marked_within {n cut bound : Nat} {marks : List Tree} {item : ModuleItem}
    (hmarks : Parts n cut marks)
    (hcut : n ≤ cut) (hbound : cut ≤ bound) (h : item.Within cut bound) :
      (item.marked marks).Within n bound := by
  have htrees (tree : Tree) (htree : tree ∈ item.trees) : (tree.marked marks).Within n bound := by
    intro s hs hkind
    rcases mem_subtrees_marked hs with ⟨mark, hmark, hs⟩ | ⟨t, ht, hk, hr⟩
    · exact (hmarks mark hmark s hs hkind).mono le_rfl hbound
    · exact hr ▸ (h.trees tree htree t ht (hk ▸ hkind)).mono hcut le_rfl
  have hapart (hne : ∀ tree, item ≠ .statement tree) (tree : Tree) (htree : tree ∈ item.trees) :
      ∀ s ∈ (tree.marked marks).subtrees, s.kind = .importCall →
        s.range.stop ≤ item.range.start ∨ item.range.start ≤ s.range.start := by
    intro s hs hkind
    rcases mem_subtrees_marked hs with ⟨mark, hmark, hs⟩ | ⟨t, ht, hk, hr⟩
    · exact .inl ((hmarks mark hmark s hs hkind).stop.trans h.start.1)
    · exact hr ▸ h.apart hne tree htree t ht (hk ▸ hkind)
  cases item with
  | exportDeclaration range tree =>
    refine ⟨⟨hcut.trans h.start.1, h.start.2⟩, fun _ => (h.range nofun).mono hcut le_rfl, ?_,
      List.forall_mem_singleton.mpr (htrees tree List.mem_cons_self),
      fun _ => List.forall_mem_singleton.mpr (hapart nofun tree List.mem_cons_self)⟩
    rintro _ _ (⟨⟨⟩⟩ | ⟨⟨⟩⟩)
    exact (marked_range tree).symm ▸ h.exported range tree (.inl rfl)
  | exportDefault range tree =>
    refine ⟨⟨hcut.trans h.start.1, h.start.2⟩, fun _ => (h.range nofun).mono hcut le_rfl, ?_,
      List.forall_mem_singleton.mpr (htrees tree List.mem_cons_self),
      fun _ => List.forall_mem_singleton.mpr (hapart nofun tree List.mem_cons_self)⟩
    rintro _ _ (⟨⟨⟩⟩ | ⟨⟨⟩⟩)
    exact (marked_range tree).symm ▸ h.exported range tree (.inr rfl)
  | _ => exact h.mono hcut le_rfl

theorem exportItem_goes (hp : AllGo parse) {marks : List Tree} (hmarks : Parts lo top marks) :
    Goes lo hi top (exportItem bound parse ctx marks) := by
  by_cases hne : marks = []
  · subst hne
    exact plainExport_goes hp
  intro c d item hc hlo hhi htop h
  obtain ⟨plain, hplain, rfl⟩ := exportItem_marked hne h
  have hgoes : Goes c.token.start hi top (exportItem bound parse ctx []) := plainExport_goes hp
  obtain ⟨hcd, hplace⟩ := hgoes hc le_rfl hhi htop hplain
  exact ⟨hcd, marked_within (hmarks.mono le_rfl htop) hlo hcd.token hplace⟩

theorem atItem_goes : Goes lo hi top atItem :=
  .bind atKeyword_goes fun _ _ _ _ => .ite (.bind nextToken_goes fun _ _ _ _ => plain_goes trivial)
    (.bind atKeyword_goes fun _ _ _ _ => .bind atPunct_goes fun _ _ _ _ => plain_goes trivial)

/-- A statement as an item. -/
theorem statement_from {n top : Nat} {tree : Tree} (h : From n top tree) : From n top
  (ModuleItem.statement tree) :=
  ⟨h.1, fun hne => absurd rfl (hne tree), nofun, Parts.one h.2, fun hne => absurd rfl (hne tree)⟩

theorem declarationItem_goes (hp : AllGo parse) : Goes lo hi top (declarationItem bound parse ctx) := by
  refine .bind atKeyword_goes fun _ _ _ _ =>
    .ite importItem_goes (.bind here_goes fun start _ _ hstart => ?_)
  refine .bind (decorators_goes hp) fun marks _ _ hmarks => .bind atKeyword_goes fun _ _ _ _ =>
    .ite ?_ ?_
  · exact exportItem_goes hp (parts (up hmarks))
  · exact .bind (classFromKeyword_goes hp (up hstart) (parts (up hmarks))) fun _ _ _ ht =>
      pure_goes (statement_from ht)

/-! ## §13. Statements. -/

theorem declarator_goes (hp : AllGo parse) : Goes lo hi top (declarator parse ctx) := by
  refine .bind here_goes fun start _ _ hstart => .bind (hp _ _ _ _ _) fun target _ _ htarget => ?_
  refine .bind eat_goes fun _ _ _ _ => .ite ?_ (node_goes hstart nofun (.one htarget.2))
  exact .bind (hp _ _ _ _ _) fun _ _ _ h => node_goes hstart nofun (.cons htarget.2 (.one h.2))

theorem declarators_goes (hp : AllGo parse) : Goes lo hi top (declarators bound parse ctx) := by
  refine .bind (declarator_goes hp) fun first _ _ hfirst =>
    .bind (many_goes ?_ ?_ _) fun others _ _ hothers => ?_
  · exact .bind atPunct_goes fun _ _ _ _ => plain_goes trivial
  · exact .bind advance_goes fun _ _ _ _ => declarator_goes hp
  · exact pure_goes (from_cons hfirst hothers)

theorem nameFollows_goes : Goes lo hi top nameFollows :=
  nextToken_goes

theorem variableKeyword_goes : Goes lo hi top (variableKeyword ctx) := by
  have hfound {kind : VariableKind} {t : Nat} : Goes lo hi t (do advance; return some kind) :=
    .bind advance_goes fun _ _ _ _ => plain_goes (from_some trivial)
  refine .bind token_goes fun t top _ _ => ?_
  split
  iterate 2 exact hfound
  next => exact .bind nextToken_goes fun _ _ _ _ => .ite (pure_goes from_none) hfound
  next => exact .bind nameFollows_goes fun _ _ _ _ => .ite hfound (pure_goes from_none)
  next =>
    exact .bind (lookahead_goes fun _ _ => trivial) fun found _ _ _ =>
      .ite (.bind advance_goes fun _ _ _ _ => hfound) (pure_goes from_none)
  next => exact pure_goes from_none

theorem variableStatement_goes (hp : AllGo parse) {start : Nat}
  (hstart : From lo top start) {kind : VariableKind} :
    Goes lo hi top (variableStatement bound parse ctx start kind) :=
  .bind (declarators_goes hp) fun _ _ _ hs => .bind require_goes fun _ _ _ _ =>
    .bind endStatement_goes fun _ _ _ _ =>
    node_goes hstart nofun (parts hs)

theorem parenthesizedTest_goes (hp : AllGo parse) : Goes lo hi top (parenthesizedTest parse ctx) :=
  .bind expect_goes fun _ _ _ _ => .bind (hp _ _ _ _ _) fun _ _ _ ht => .bind expect_goes fun _ _ _ _ =>
    pure_goes ht

theorem loopPart_goes (hp : AllGo parse) {close : Punct} :
    Goes lo hi top (loopPart parse ctx close) := by
  refine .bind atPunct_goes fun _ top _ _ => ?_
  extract_lets next
  have hnext (found : List Tree) (t : Nat) [Step top t] (h : From lo t found) :
    Goes lo hi t (next found) :=
    .bind expect_goes fun _ _ _ _ => pure_goes h
  exact .ite (.bind (pure_goes from_nil) (later hnext))
    (.bind (hp _ _ _ _ _) fun _ _ _ ht => .bind (pure_goes (from_one ht)) (later hnext))

theorem countingLoop_goes (hp : AllGo parse) {start s : Nat} [Upto s top] (hstart : From lo top start)
    {initial : List Tree} (hinitial : Parts lo s initial) : Goes lo hi top
      (countingLoop parse ctx start initial) := by
  refine .bind expect_goes fun _ _ _ _ => .bind (loopPart_goes hp) fun test _ _ htest => ?_
  refine .bind (loopPart_goes hp) fun step _ _ hstep => .bind (hp _ _ _ _ _) fun body _ _ hbody => ?_
  exact node_goes hstart nofun
    (((hinitial.append (parts htest)).append (parts hstep)).append (.one hbody.2))

theorem itemLoop_goes (hp : AllGo parse) {start s : Nat} [Upto s top] (hstart : From lo top start)
    {isAwait : Bool} {target : Tree} (htarget : target.Within lo s) :
    Goes lo hi top (itemLoop parse ctx start isAwait target) := by
  refine .bind eatKeyword_goes fun _ top _ _ => ?_
  extract_lets next
  have hnext (items : Tree) (t : Nat) [Step top t] (h : From lo t items) : Goes lo hi t (next items) :=
    .bind expect_goes fun _ _ _ _ => .bind (hp _ _ _ _ _) fun _ _ _ hbody =>
      node_goes hstart nofun (.cons htarget (.cons h.2 (.one hbody.2)))
  exact .ite (.bind (hp _ _ _ _ _) (later hnext))
    (.bind expectKeyword_goes fun _ _ _ _ => .bind require_goes fun _ _ _ _ =>
      .bind (hp _ _ _ _ _) (later hnext))

theorem atItems_goes : Goes lo hi top atItems :=
  .bind atKeyword_goes fun _ _ _ _ => .bind atKeyword_goes fun _ _ _ _ => plain_goes trivial

theorem forLoop_goes (hp : AllGo parse) : Goes lo hi top (forLoop bound parse ctx) := by
  refine .bind here_goes fun start _ _ hstart => .bind expectKeyword_goes fun _ _ _ _ =>
    .bind eatKeyword_goes fun _ _ _ _ => ?_
  refine .bind require_goes fun _ _ _ _ => .bind expect_goes fun _ _ _ _ =>
    .bind atPunct_goes fun _ _ _ _ =>
    ?_
  refine .ite (.bind require_goes fun _ _ _ _ => countingLoop_goes hp (up hstart) .nil) ?_
  refine .bind here_goes fun headStart _ _ hhead => ?_
  extract_lets _ head isOf
  refine .bind atKeyword_goes fun _ _ _ _ => .bind nextToken_goes fun _ _ _ _ =>
    .bind require_goes fun _ _ _ _ => ?_
  refine .bind atKeyword_goes fun _ _ _ _ => .bind atKeyword_goes fun _ _ _ _ =>
    .bind nextToken_goes fun _ top _ _ => ?_
  extract_lets next
  suffices hnext : ∀ kind? t, [Step top t] → From lo t kind? → Goes lo hi t (next kind?) from
    .ite_bind (pure_goes from_none) variableKeyword_goes (later hnext)
  intro kind? t _ _
  unfold next
  split
  next =>
    refine .bind (declarators_goes hp) fun found _ _ hfound => .bind require_goes fun _ _ _ _ => ?_
    refine .bind (node_goes hhead nofun (parts hfound)) fun target _ _ htarget =>
      .bind atItems_goes fun _ _ _ _ => .ite ?_ ?_
    · exact .bind atKeyword_goes fun _ _ _ _ => .bind require_goes fun _ _ _ _ =>
        itemLoop_goes hp (up hstart) htarget.2
    · exact .bind require_goes fun _ _ _ _ => countingLoop_goes hp (up hstart) (.one htarget.2)
  next =>
    refine .bind (hp _ _ _ _ _) fun first _ _ hfirst => .bind atItems_goes fun _ _ _ _ => .ite ?_ ?_
    · refine .bind atKeyword_goes fun _ _ _ _ => .bind require_goes fun _ _ _ _ => ?_
      split
      next target h => exact itemLoop_goes hp (up hstart) (toTarget?_within hfirst.2 h)
      next => exact fail_goes
    · exact .bind require_goes fun _ _ _ _ => countingLoop_goes hp (up hstart) (.one hfirst.2)

theorem doLoop_goes (hp : AllGo parse) : Goes lo hi top (doLoop parse ctx) := by
  refine .bind here_goes fun start _ _ hstart => .bind expectKeyword_goes fun _ _ _ _ =>
    .bind (hp _ _ _ _ _) fun _ _ _ hbody => ?_
  refine .bind expectKeyword_goes fun _ _ _ _ => .bind (parenthesizedTest_goes hp) fun _ _ _ htest => ?_
  exact .bind eat_goes fun _ _ _ _ => node_goes hstart nofun (.cons hbody.2 (.one htest.2))

theorem testedStatement_goes (hp : AllGo parse) : Goes lo hi top (testedStatement parse ctx) :=
  .bind advance_goes fun _ _ _ _ => .bind (parenthesizedTest_goes hp) fun _ _ _ htest =>
    .bind (hp _ _ _ _ _) fun _ _ _ hbody => pure_goes (from_cons htest (from_one hbody))

theorem ifStatement_goes (hp : AllGo parse) : Goes lo hi top (ifStatement parse ctx) := by
  refine .bind here_goes fun start _ _ hstart =>
    .bind (testedStatement_goes hp) fun tested top _ htested =>
    ?_
  refine .bind eatKeyword_goes fun _ top _ _ => ?_
  extract_lets next
  have hnext (otherwise : List Tree) (t : Nat) [Step top t] (h : From lo t otherwise) :
      Goes lo hi t (next otherwise) :=
    node_goes hstart nofun ((parts htested).append (parts h))
  exact .ite (.bind (hp _ _ _ _ _) fun _ _ _ ht =>
    .bind (pure_goes (from_one ht)) (later hnext)) (.bind (pure_goes from_nil) (later hnext))

theorem switchCase_goes (hp : AllGo parse) : Goes lo hi top (switchCase bound parse ctx) := by
  refine .bind here_goes fun start _ _ hstart => .bind eatKeyword_goes fun _ top _ _ => ?_
  extract_lets atCaseEnd next
  have hnext (test : List Tree) (t : Nat) [Step top t] (h : From lo t test) :
    Goes lo hi t (next test) := by
    refine .bind expect_goes fun _ _ _ _ =>
      .bind (many_goes ?_ (hp _ _ _ _ _) _) fun _ top _ hbody => ?_
    · exact .bind atKeyword_goes fun _ _ _ _ => .bind atKeyword_goes fun _ _ _ _ =>
        .bind atPunct_goes fun _ _ _ _ =>
        plain_goes trivial
    · exact node_goes hstart nofun ((parts h).append (parts hbody))
  refine .ite (.bind (pure_goes from_nil) (later hnext)) (.bind expectKeyword_goes fun _ top _ _ => ?_)
  exact .bind (hp _ _ _ _ _) fun _ _ _ ht => .bind (pure_goes (from_one ht)) (later hnext)

theorem switchStatement_goes (hp : AllGo parse) : Goes lo hi top (switchStatement bound parse ctx) := by
  refine .bind here_goes fun start _ _ hstart => .bind advance_goes fun _ _ _ _ => ?_
  refine .bind (parenthesizedTest_goes hp) fun _ _ _ hvalue => .bind expect_goes fun _ _ _ _ => ?_
  exact .bind (many_goes atPunct_goes (switchCase_goes hp) _) fun _ _ _ hcases =>
    .bind expect_goes fun _ _ _ _ =>
    node_goes hstart nofun (.cons hvalue.2 (parts hcases))

theorem jump_goes : Goes lo hi top jump := by
  refine .bind here_goes fun start _ _ hstart => .bind advance_goes fun _ _ _ _ =>
    .bind token_goes fun t top _ _ => ?_
  extract_lets next
  have hnext (u : Unit) (t : Nat) [Step top t] (_ : From lo t u) : Goes lo hi t (next u) :=
    .bind endStatement_goes fun _ _ _ _ => node_goes hstart nofun .nil
  exact .ite (.bind advance_goes (later hnext)) (now hnext () trivial)

theorem returnStatement_goes (hp : AllGo parse) : Goes lo hi top (returnStatement parse ctx) := by
  refine .bind here_goes fun start _ _ hstart => .bind require_goes fun _ _ _ _ =>
    .bind advance_goes fun _ top _ _ => ?_
  refine .bind canEnd_goes fun _ top _ _ => ?_
  extract_lets next
  have hnext (value : List Tree) (t : Nat) [Step top t] (h : From lo t value) :
    Goes lo hi t (next value) :=
    .bind endStatement_goes fun _ _ _ _ => node_goes hstart nofun (parts h)
  exact .ite (.bind (pure_goes from_nil) (later hnext)) (.bind (hp _ _ _ _ _) fun _ _ _ ht =>
    .bind (pure_goes (from_one ht)) (later hnext))

theorem throwStatement_goes (hp : AllGo parse) : Goes lo hi top (throwStatement parse ctx) :=
  .bind here_goes fun _ _ _ hstart => .bind advance_goes fun _ _ _ _ => .bind token_goes fun _ _ _ _ =>
    .bind require_goes fun _ _ _ _ => .bind (hp _ _ _ _ _) fun _ _ _ ht =>
      .bind endStatement_goes fun _ _ _ _ =>
      node_goes hstart nofun (.one ht.2)

theorem tryStatement_goes (hp : AllGo parse) : Goes lo hi top (tryStatement parse ctx) := by
  refine .bind here_goes fun start _ _ hstart => .bind advance_goes fun _ _ _ _ =>
    .bind (hp _ _ _ _ _) fun body top _ hbody => ?_
  refine .bind eatKeyword_goes fun _ top _ _ => ?_
  extract_lets handled caught
  have hhandled (handler : List Tree) (t : Nat) [Step top t] (hh : From lo t handler) :
      Goes lo hi t (handled handler) := by
    refine .bind eatKeyword_goes fun _ top _ _ => ?_
    extract_lets next
    have hnext (final : List Tree) (t : Nat) [Step top t] (hf : From lo t final) :
        Goes lo hi t (next final) :=
      .bind require_goes fun _ _ _ _ =>
        node_goes hstart nofun ((Parts.cons hbody.2 (parts hh)).append (parts hf))
    exact .ite (.bind (hp _ _ _ _ _) fun _ _ _ ht => .bind (pure_goes (from_one ht)) (later hnext))
      (.bind (pure_goes from_nil) (later hnext))
  have hcaught (parameter : List Tree) (t : Nat) [Step top t] (h : From lo t parameter) :
      Goes lo hi t (caught parameter) :=
    .bind (hp _ _ _ _ _) fun _ _ _ ht =>
      .bind (pure_goes (from_append h (from_one ht))) (later hhandled)
  refine .ite (.bind eat_goes fun _ _ _ _ => .ite ?_ (.bind (pure_goes from_nil) (later hcaught)))
    (.bind (pure_goes from_nil) (later hhandled))
  exact .bind (hp _ _ _ _ _) fun _ _ _ ht => .bind expect_goes fun _ _ _ _ =>
    .bind (pure_goes (from_one ht)) (later hcaught)

theorem block_goes (hp : AllGo parse) : Goes lo hi top (block bound parse ctx) :=
  .bind here_goes fun _ _ _ hstart => .bind expect_goes fun _ _ _ _ =>
    .bind (many_goes atPunct_goes (hp _ _ _ _ _) _) fun _ _ _ hs => .bind expect_goes fun _ _ _ _ =>
      node_goes hstart nofun (parts hs)

theorem expressionStatement_goes (hp : AllGo parse) :
    Goes lo hi top (expressionStatement parse ctx) := by
  refine .bind here_goes fun start _ _ hstart => .bind (hp _ _ _ _ _) fun value top _ hvalue => ?_
  extract_lets next
  have hnext (u : Unit) : Goes lo hi top (next u) :=
    .bind endStatement_goes fun _ _ _ _ => node_goes hstart nofun (.one hvalue.2)
  split
  next =>
    exact .bind eat_goes fun _ _ _ _ =>
      .ite (.bind (hp _ _ _ _ _) fun _ _ _ ht => node_goes hstart nofun (.one ht.2)) (hnext ()).later
  next => exact hnext ()

theorem letAsName_goes : Goes lo hi top letAsName :=
  .bind here_goes fun _ _ _ hstart => .bind wordName_goes fun _ _ _ _ =>
    .bind (node_goes hstart nofun .nil) fun _ _ _ ht =>
    .bind endStatement_goes fun _ _ _ _ => node_goes hstart nofun (.one ht.2)

theorem variableStatement?_goes (hp : AllGo parse) {single : Bool} :
    Goes lo hi top (variableStatement? bound parse ctx single) := by
  refine .bind here_goes fun start _ _ hstart => .bind atKeyword_goes fun _ _ _ _ =>
    .bind nextToken_goes fun _ _ _ _ => .ite ?_ ?_
  · refine .bind (lookahead_goes fun _ _ _ _ => trivial) fun found _ _ _ => ?_
    split
    next => exact .bind letAsName_goes fun _ _ _ ht => pure_goes (from_some ht)
    next => exact pure_goes from_none
  · refine .bind variableKeyword_goes fun kind? _ _ _ => ?_
    split
    next =>
      exact .bind require_goes fun _ _ _ _ =>
        .bind (variableStatement_goes hp (up hstart)) fun _ _ _ ht =>
        pure_goes (from_some ht)
    next => exact pure_goes from_none

theorem keywordStatement_goes (hp : AllGo parse) {single : Bool} :
    Goes lo hi top (keywordStatement bound parse ctx single) := by
  refine .bind here_goes fun start _ _ hstart => .bind token_goes fun t _ _ _ => ?_
  split
  next => exact ifStatement_goes hp
  next => exact forLoop_goes hp
  iterate 2 exact .bind (testedStatement_goes hp) fun _ _ _ hs => node_goes hstart nofun (parts hs)
  next => exact doLoop_goes hp
  iterate 2 exact jump_goes
  next => exact returnStatement_goes hp
  next => exact switchStatement_goes hp
  next => exact throwStatement_goes hp
  next => exact tryStatement_goes hp
  next =>
    exact .bind advance_goes fun _ _ _ _ => .bind endStatement_goes fun _ _ _ _ =>
      node_goes hstart nofun .nil
  next => exact .bind require_goes fun _ _ _ _ => classFromKeyword_goes hp (up hstart) nofun
  next =>
    refine .bind (variableStatement?_goes hp) fun tree? _ _ htree => ?_
    split
    next tree => exact pure_goes (htree tree rfl)
    next =>
      refine .bind atFunction_goes fun _ _ _ _ => .ite ?_ (expressionStatement_goes hp)
      exact .bind atKeyword_goes fun _ _ _ _ => .bind nextToken_goes fun _ _ _ _ =>
        .bind require_goes fun _ _ _ _ =>
        functionDeclaration_goes hp

/-- A declaration below the top level stands where it stood as an item. -/
theorem toTree_from {n top : Nat} {item : ModuleItem} (h : From n top item) :
    From n top item.toTree := by
  cases item with
  | statement tree => exact ⟨h.start, h.trees tree List.mem_cons_self⟩
  | _ => exact ⟨h.start, (within_iff_parts (by nofun)).mpr h.trees⟩

theorem statement_goes (hp : AllGo parse) {single : Bool} :
    Goes lo hi top (statement bound parse ctx single) := by
  refine .bind atItem_goes fun _ _ _ _ => .ite ?_ (.bind token_goes fun t _ _ _ => ?_)
  · exact .bind atPunct_goes fun _ _ _ _ => .bind require_goes fun _ _ _ _ =>
      .bind (declarationItem_goes hp) fun _ _ _ h =>
      pure_goes (toTree_from h)
  split
  next => exact hp _ _ _ _ _
  next =>
    exact .bind here_goes fun _ _ _ hstart => .bind advance_goes fun _ _ _ _ =>
      node_goes hstart nofun .nil
  next => exact keywordStatement_goes hp
  next => exact expressionStatement_goes hp

/-! ## §14. All goals. -/

theorem production_goes (hp : AllGo parse) : AllGo (production bound parse) := by
  intro goal ctx lo hi top
  cases goal with
  | statement single => exact statement_goes hp
  | block => exact block_goes hp
  | expression => exact expression_goes hp
  | assignment => exact assignment_goes hp
  | binary above => exact binary_goes hp
  | unary => exact unary_goes hp
  | leftHandSide => exact members_goes hp
  | constructor => exact members_goes hp
  | pattern => exact bindingPattern_goes hp
  | element => exact markupElement_goes hp

/-- **Parsers move forward**, whatever they look for. -/
theorem parseGoal_goes (bound : Nat) : ∀ depth, AllGo (parseGoal bound depth)
  | 0, _, _, _, _, _ => fail_goes
  | depth + 1, goal, ctx, lo, hi, top => production_goes (parseGoal_goes bound depth) goal ctx lo hi top

theorem moduleItem_goes (hp : AllGo parse) : Goes lo hi top (moduleItem bound parse ctx) :=
  .bind atItem_goes fun _ _ _ _ => .ite (declarationItem_goes hp)
    (.bind (hp _ _ _ _ _) fun _ _ _ ht => pure_goes (statement_from ht))

end Productions

/-- The first token of a text stands behind its beginning. -/
theorem start_ordered {source : List Char} {first : Cursor} (h : Lexer.start source = some first) :
    Ordered first := by
  unfold Lexer.start at h
  split at h
  next => exact (readToken_ordered h (Nat.zero_le _)).1
  next => exact (readToken_ordered h le_rfl).1

/-- Items that are read one after the other stand so. -/
theorem many_inOrder {item : Parser ModuleItem} (hitem : ∀ lo, Goes lo 0 0 item) :
    ∀ {bound : Nat} {c d : Cursor} {items : List ModuleItem}, Ordered c → many atEnd item bound c = some
      (items, d) →
      (∀ i ∈ items, i.Within c.token.start d.token.start) ∧ InOrder items
  | 0, _, _, _, _, h => nomatch h
  | bound + 1, c, d, items, hc, h => by
    obtain ⟨ended, c₁, hend, h⟩ := bind_eq_some h
    have hgoes : Goes 0 0 0 atEnd := atEnd_goes
    have hc₁ := (hgoes hc (Nat.zero_le _) (Nat.zero_le _) (Nat.zero_le _) hend).1
    split at h
    next =>
      cases h
      exact ⟨nofun, .nil⟩
    next =>
      obtain ⟨first, c₂, hfirst, h⟩ := bind_eq_some h
      obtain ⟨rest, c₃, hrest, ⟨⟩⟩ := bind_eq_some h
      obtain ⟨hc₂, hplace⟩ := hitem c.token.start hc₁.ordered hc₁.token (Nat.zero_le _)
        (Nat.zero_le _) hfirst
      obtain ⟨hplaces, horder⟩ := many_inOrder hitem hc₂.ordered hrest
      have hc₃ := (many_goes atEnd_goes (hitem 0) bound hc₂.ordered (Nat.zero_le _) (Nat.zero_le _)
        (Nat.zero_le _) hrest).1
      refine ⟨List.forall_mem_cons.mpr ⟨ModuleItem.Within.mono hplace le_rfl hc₃.token, fun i hi =>
        ?_⟩, .cons ?_ horder⟩
      · exact (hplaces i hi).mono (hc₁.token.trans hc₂.token) le_rfl
      · exact fun i hi => ⟨_, _, ModuleItem.Within.mono hplace (Nat.zero_le _) le_rfl, hplaces i hi⟩

end Grammar

open Grammar Lexer

/-- **The words of a module stand in order**: each item between the beginning of the text and its end,
and behind the items before it. -/
theorem parse?_inOrder {markup : Bool} {source : List Char} {items : List ModuleItem}
    (h : parse? markup source = some items) :
    (∃ bound, ∀ item ∈ items, item.Within 0 bound) ∧ InOrder items := by
  simp only [parse?, Option.bind_eq_bind, Option.bind_eq_some_iff] at h
  obtain ⟨first, hfirst, ⟨found, last⟩, hmany, h⟩ := h
  split at h
  next =>
    cases h
    obtain ⟨hplaces, horder⟩ := many_inOrder (fun lo =>
      moduleItem_goes (parseGoal_goes _ _)) (start_ordered hfirst) hmany
    exact ⟨⟨_, fun item hmem => (hplaces item hmem).mono (Nat.zero_le _) le_rfl⟩, horder⟩
  next => cases h

/-- **No range of a module is the wrong way round**: the range of every declaration, what precedes an
exported tree, and every dynamic import end no earlier than they begin. -/
theorem parse?_forward {markup : Bool} {source : List Char} {items : List ModuleItem}
    (h : parse? markup source = some items) : ∀ item ∈ items, item.Forward := by
  obtain ⟨⟨_, hplaces⟩, -⟩ := parse?_inOrder h
  exact fun item hmem => (hplaces item hmem).forward

end AssetBundler.Script
