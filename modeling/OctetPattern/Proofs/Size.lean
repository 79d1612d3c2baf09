import Mathlib.Algebra.Ring.Nat
import Mathlib.Data.List.Perm.Subperm
import OctetPattern.Proofs.Invariants

/-!
# The size of a tree

A tree has fewer than three nodes for each character of its text
(`parse_size`), and the word class `\w` has as many as that allows.

The bound is carried along a derivation as a payment (`Form.Paid`): each
character pays for three nodes, and each item costs its nodes and one
more (`Pattern.cost`). What two items leave over covers the sequence
around them, and the bars of an alternation cover its own node and that
of the set its branches are collected in. A string in several charsets
has more nodes than the others, but a directive drops what it repeats, so
there are at most six.
-/

namespace OctetPattern

/-! ## Counting nodes -/

namespace Pattern

/-- Induction from the children of a node to the node. -/
theorem children_induction {motive : Pattern → Prop}
    (node : ∀ p : Pattern, (∀ child ∈ p.children, motive child) → motive p) (p : Pattern) :
    motive p := by
  induction p with
  | set members inverted ih => exact node _ ih
  | sequence items ih => exact node _ ih
  | alternatives branches ih => exact node _ ih
  | quantified quantifier operand ih => exact node _ (List.forall_mem_singleton.mpr ih)
  | byte | range | any | wild | anyBits | string => exact node _ nofun

/-- The number of nodes of a tree. -/
def nodeCount (p : Pattern) : Nat :=
  p.preorder.length

theorem length_preorderEach {ps : List Pattern} {depth : Nat}
    (h : ∀ p ∈ ps, (p.preorderFrom depth).length = p.nodeCount) :
    (preorderEach depth ps).length = (ps.map nodeCount).sum := by
  induction ps with
  | nil => rfl
  | cons p ps ih =>
    rw [List.forall_mem_cons] at h
    rw [preorderEach, List.length_append, h.1, ih h.2, List.map_cons, List.sum_cons]

theorem length_preorderFrom (p : Pattern) (depth : Nat) :
    (p.preorderFrom depth).length = 1 + (preorderEach (depth + 1) p.children).length := by
  cases p <;> simp [preorderFrom, children, preorderEach, Nat.add_comm]

/-- The depth at which a walk starts adds no nodes. -/
theorem length_preorderFrom_zero (p : Pattern) (depth : Nat) :
    (p.preorderFrom depth).length = p.nodeCount := by
  induction p using children_induction generalizing depth with
  | node p ih =>
    rw [nodeCount, preorder, length_preorderFrom, length_preorderFrom,
      length_preorderEach fun child hchild => ih child hchild _,
      length_preorderEach fun child hchild => ih child hchild _]

/-- The root, and the nodes of all children. -/
theorem nodeCount_eq (p : Pattern) : p.nodeCount = 1 + (p.children.map nodeCount).sum := by
  rw [nodeCount, preorder, length_preorderFrom,
    length_preorderEach fun child _ => length_preorderFrom_zero child _]

theorem nodeCount_of_leaf {p : Pattern} (h : p.children = []) : p.nodeCount = 1 := by
  rw [nodeCount_eq, h]
  rfl

/-! ## What an item costs -/

/-- The nodes of a tree, and one more. -/
def cost (p : Pattern) : Nat :=
  p.nodeCount + 1

/-- What several items cost together. -/
def costEach (ps : List Pattern) : Nat :=
  (ps.map cost).sum

@[simp] theorem costEach_nil : costEach [] = 0 := rfl

@[simp] theorem costEach_cons (p : Pattern) (ps : List Pattern) :
    costEach (p :: ps) = p.cost + costEach ps := rfl

@[simp] theorem costEach_append (ps qs : List Pattern) :
    costEach (ps ++ qs) = costEach ps + costEach qs := by
  rw [costEach, List.map_append, List.sum_append]
  rfl

theorem costEach_perm {ps qs : List Pattern} (h : ps.Perm qs) : costEach ps = costEach qs :=
  (h.map cost).sum_nat

/-- Nodes are counted once where they are held together, and paid for with
one more each as long as they are apart. -/
theorem costEach_eq (ps : List Pattern) :
    costEach ps = (ps.map nodeCount).sum + ps.length := by
  induction ps with
  | nil => rfl
  | cons p ps ih =>
    rw [costEach_cons, ih, cost, List.map_cons, List.sum_cons, List.length_cons]
    omega

theorem cost_of_leaf {p : Pattern} (h : p.children = []) : p.cost = 2 := by
  rw [cost, nodeCount_of_leaf h]

/-- A node of its own is paid for with two more, less one for each child. -/
theorem cost_add_length (p : Pattern) : p.cost + p.children.length = 2 + costEach p.children := by
  rw [cost, nodeCount_eq, costEach_eq]
  omega

theorem cost_toggled {p q : Pattern} (h : p.toggled? = some q) : q.cost = p.cost := by
  cases p <;> cases h <;> rfl

theorem cost_anyBits {p : Pattern} {bits : MaskedByte} (h : p.masked? = some bits)
    (inverted : Bool) : (anyBits bits inverted).cost = p.cost := by
  cases p <;> cases h <;> rfl

theorem cost_quantified (quantifier : Quantifier) (operand : Pattern) :
    (quantified quantifier operand).cost = operand.cost + 1 := by
  have hcost := cost_add_length (quantified quantifier operand)
  simp only [children, costEach_cons, costEach_nil, List.length_singleton] at hcost
  omega

/-! ## Values -/

theorem cost_byteClass (c : ByteClass) : c.pattern.cost ≤ 6 := by
  obtain ⟨base, negated⟩ := c
  cases base <;> cases negated <;> decide

theorem cost_escape (escape : Escape) : (escape.pattern false).cost ≤ 6 := by
  cases escape with
  | byte value => exact Nat.le_trans (cost_of_leaf rfl).le (by decide)
  | byteClass c => exact cost_byteClass c

theorem costEach_strings (casing : Casing) (text : List Char) (charsets : List Charset) :
    costEach (charsets.map (string casing text)) = 2 * charsets.length := by
  induction charsets with
  | nil => rfl
  | cons charset charsets ih =>
    rw [List.map_cons, costEach_cons, ih, cost_of_leaf rfl, List.length_cons]
    omega

/-- A string has a node for each charset, and one that holds them. -/
theorem cost_quotedValue (casing : Casing) (text : List Char) {charsets : List Charset}
    (h : charsets.length ≤ 6) : (quotedValue casing text charsets).cost ≤ 8 := by
  match charsets with
  | [] => exact (cost_of_leaf rfl).le.trans (by decide)
  | [charset] =>
    rcases quotedValue_singleton casing text charset with ⟨value, hvalue⟩ | ⟨hvalue, -⟩
    · rw [hvalue, cost_of_leaf rfl]
      decide
    · rw [hvalue, cost_of_leaf rfl]
      decide
  | charset :: charset' :: charsets =>
    have hcost := cost_add_length (quotedValue casing text (charset :: charset' :: charsets))
    simp only [quotedValue, children, costEach_strings, List.length_map] at hcost ⊢
    omega

/-! ## Branches -/

theorem cost_joined {items : List Pattern} {p : Pattern} (h : Joined items p) :
    p.cost ≤ costEach items := by
  cases h with
  | one => simp
  | more hlength =>
    have hcost := cost_add_length (sequence items.reverse)
    rw [children, List.length_reverse, costEach_perm (List.reverse_perm items)] at hcost
    omega

/-- The bars between branches pay for the nodes around them. -/
theorem cost_alternation {branches : List Pattern} {p : Pattern} (h : Alternation branches p) :
    p.cost + 3 ≤ costEach branches + 3 * branches.length := by
  cases h with
  | one => simp
  | plain hlength hfew =>
    have hcost := cost_add_length (alternatives branches)
    rw [children] at hcost
    omega
  | set hlength hall =>
    have hcost := cost_add_length (set branches false)
    rw [children] at hcost
    omega
  | mixed hmany hother =>
    have hperm := List.filter_append_perm matchesSinglePosition branches
    have hcosts := costEach_perm hperm
    have hlengths := hperm.length_eq
    have hset := cost_add_length (set (branches.filter matchesSinglePosition) false)
    have hcost := cost_add_length (alternatives (branches.filter (!·.matchesSinglePosition) ++
      [set (branches.filter matchesSinglePosition) false]))
    simp only [children, costEach_append, costEach_cons, costEach_nil, List.length_append,
      List.length_singleton] at hset hcost hcosts hlengths
    omega

end Pattern

/-! ## Derivations -/

/-- Each charset once, so at most all six. -/
theorem Charset.length_le_of_nodup {charsets : List Charset} (h : charsets.Nodup) :
    charsets.length ≤ 6 := by
  have hsub : charsets ⊆ [.latin1, .ascii, .windows1252, .utf8, .utf16be, .utf16le] := by
    intro charset _
    cases charset <;> decide
  exact (List.subperm_of_subset h hsub).length_le

theorem Spacing.length_lt {text rest : List Char} (h : Spacing text rest) :
    rest.length < text.length := by
  cases h with
  | blank hc => exact Nat.lt_succ_self _
  | comment hbody =>
    simp only [List.length_cons, List.length_append]
    omega
  | lastComment hbody => exact Nat.zero_lt_succ _

theorem Gap.length_le {text rest : List Char} (h : Gap text rest) :
    rest.length ≤ text.length := by
  induction h with
  | nil => exact Nat.le_refl _
  | cons first others ih => exact ih.trans first.length_lt.le

theorem length_lt_append {lexeme : List Char} (hne : lexeme ≠ []) (rest : List Char) :
    rest.length < (lexeme ++ rest).length := by
  rw [List.length_append]
  exact Nat.lt_add_of_pos_left (List.length_pos_of_ne_nil hne)

theorem ByteSpelling.length_lt {text digits rest : List Char} {bits : MaskedByte}
    (h : ByteSpelling text digits bits rest) : rest.length < text.length := by
  obtain ⟨lexeme, hne, rfl, -⟩ := h.exists_lexeme
  exact length_lt_append hne rest

theorem QuantifierSpelling.length_lt {text rest : List Char} {quantifier : Quantifier}
    (h : QuantifierSpelling text quantifier rest) : rest.length < text.length := by
  obtain ⟨lexeme, hne, rfl, -⟩ := h.exists_lexeme
  exact length_lt_append hne rest

open Pattern

/-- What a part of a text pays for, for each form: three nodes for each of
its characters. Branches have three more, as if a bar stood before the
first of them. -/
def Form.Paid : Form → List Char → List Char → Prop
  | .phrase _ charsets value, text, rest =>
    charsets.length ≤ 6 → value.cost + 3 * rest.length ≤ 3 * text.length
  | .steps _ before after, text, rest =>
    before.charsets.length ≤ 6 → after.charsets.length ≤ 6 ∧
      costEach after.items + 3 * rest.length ≤ costEach before.items + 3 * text.length
  | .branches charsets values, text, rest =>
    charsets.length ≤ 6 →
      costEach values + 3 * values.length + 3 * rest.length ≤ 3 + 3 * text.length

namespace Form.Paid

variable {place : Place} {before draft after : Draft} {text middle rest : List Char}

theorem trans (h : (Form.steps place before draft).Paid text middle)
    (next : (Form.steps place draft after).Paid middle rest) :
    (Form.steps place before after).Paid text rest := by
  intro hcharsets
  obtain ⟨hdraft, hpaid⟩ := h hcharsets
  obtain ⟨hafter, hnext⟩ := next hdraft
  exact ⟨hafter, by omega⟩

theorem push {p : Pattern}
    (h : before.charsets.length ≤ 6 → p.cost + 3 * middle.length ≤ 3 * text.length) :
    (Form.steps place before (before.push p)).Paid text middle := by
  intro hcharsets
  refine ⟨hcharsets, ?_⟩
  have hp := h hcharsets
  rw [Draft.push, costEach_cons]
  omega

/-- The newest item becomes another one. -/
theorem replace {charsets : List Charset} {items : List Pattern} {p q : Pattern}
    (h : charsets.length ≤ 6 → q.cost + 3 * middle.length ≤ p.cost + 3 * text.length) :
    (Form.steps place ⟨charsets, p :: items⟩ ⟨charsets, q :: items⟩).Paid text middle := by
  intro hcharsets
  refine ⟨hcharsets, ?_⟩
  have hq := h hcharsets
  rw [costEach_cons, costEach_cons]
  omega

end Form.Paid

/-- A character and a gap before a value only pay for more. -/
theorem Gap.paid {p : Pattern} {charsets : List Charset} {text operand rest : List Char}
    (hgap : Gap text operand) (first : Char)
    (h : charsets.length ≤ 6 → p.cost + 3 * rest.length ≤ 3 * operand.length)
    (hcharsets : charsets.length ≤ 6) : p.cost + 3 * rest.length ≤ 3 * (first :: text).length := by
  have hoperand := hgap.length_le
  have hp := h hcharsets
  rw [List.length_cons]
  omega

theorem Derives.isPaid {form : Form} {text rest : List Char} (h : Derives form text rest) :
    form.Paid text rest := by
  induction h with
  | byte h hfixed =>
    intro _
    have hlength := h.length_lt
    rw [cost_of_leaf rfl]
    omega
  | wild h hwild =>
    intro _
    have hlength := h.length_lt
    rw [cost_of_leaf rfl]
    omega
  | @escape place charsets letter escape rest h =>
    intro _
    have hcost := cost_escape escape
    simp only [List.length_cons]
    omega
  | @set place charsets text rest after members hmembers ih =>
    intro hcharsets
    obtain ⟨-, hpaid⟩ := ih hcharsets
    have hcost := cost_add_length (.set after.items.reverse false)
    rw [children, costEach_perm (List.reverse_perm _)] at hcost
    simp only [Draft.empty, costEach_nil, List.length_cons] at hpaid ⊢
    omega
  | @quoted place charsets casing body rest hbody hquote hencodable =>
    intro hcharsets
    have hlength : (place.charsets charsets).length ≤ 6 := by
      cases place with
      | sequence => exact hcharsets
      | set => exact Nat.le_of_ble_eq_true rfl
    have hcost := cost_quotedValue casing body hlength
    have hbody := List.length_pos_of_ne_nil hbody
    simp only [List.length_cons, List.length_append]
    omega
  | done => exact fun hcharsets => ⟨hcharsets, Nat.le_refl _⟩
  | gap h next ih =>
    refine .trans (fun hcharsets => ⟨hcharsets, ?_⟩) ih
    have hlength := h.length_lt
    omega
  | value h next ih ihnext => exact .trans (.push ih) ihnext
  | any next ih =>
    refine .trans (.push fun _ => ?_) ih
    rw [cost_of_leaf rfl, List.length_cons]
    omega
  | inverted hgap h htoggled next ih ihnext =>
    refine .trans (.push (hgap.paid _ fun hcharsets => ?_)) ihnext
    rw [cost_toggled htoggled]
    exact ih hcharsets
  | range hgap h next ih ihnext =>
    refine .trans (.replace fun hcharsets => ?_) ihnext
    have hpaid := hgap.paid '-' ih hcharsets
    rw [cost_of_leaf rfl] at hpaid ⊢
    omega
  | anyBits hgap h hmasked next ih ihnext =>
    refine .trans (.push (hgap.paid _ fun hcharsets => ?_)) ihnext
    rw [cost_anyBits hmasked]
    exact ih hcharsets
  | invertedAnyBits hcaret hgap h hmasked next ih ihnext =>
    refine .trans (.push (hcaret.paid _ (hgap.paid _ fun hcharsets => ?_))) ihnext
    rw [cost_anyBits hmasked]
    exact ih hcharsets
  | directive hclose h next ih =>
    refine .trans (fun _ => ⟨Charset.length_le_of_nodup h.nodup, ?_⟩) ih
    simp only [List.length_cons, List.length_append]
    omega
  | quantifier h hoperand next ih =>
    refine .trans (.replace fun _ => ?_) ih
    have hlength := h.length_lt
    rw [cost_quantified]
    omega
  | group h hvalue next ih ihnext =>
    refine .trans (.push fun hcharsets => ?_) ihnext
    have hcost := cost_alternation hvalue
    have hbranches := ih hcharsets
    rw [List.length_cons] at hbranches ⊢
    omega
  | lastBranch h hvalue ih =>
    intro hcharsets
    have hcost := cost_joined hvalue
    obtain ⟨-, hpaid⟩ := ih hcharsets
    simp only [Draft.empty, costEach_cons, costEach_nil, List.length_singleton] at hpaid ⊢
    omega
  | branch h hvalue others ih ihothers =>
    intro hcharsets
    have hcost := cost_joined hvalue
    obtain ⟨hafter, hpaid⟩ := ih hcharsets
    have hothers := ihothers hafter
    simp only [Draft.empty, costEach_cons, costEach_nil, List.length_cons] at hpaid ⊢
    omega

/-- A tree has at most three nodes for each character of its text, less
one. -/
theorem parse_size {text : List Char} {p : Pattern} (h : parse text = .ok p) :
    p.nodeCount ≤ 3 * text.length - 1 := by
  obtain ⟨values, hbranches, hvalue⟩ := denotes_of_parse h
  have hcost := cost_alternation hvalue
  have hpaid := hbranches.isPaid (Nat.le_of_ble_eq_true rfl)
  rw [cost] at hcost
  rw [List.length_nil] at hpaid
  omega

/-- A word class has as many nodes as its two characters allow. -/
theorem parse_size_word :
    parse ['\\', 'w'] = .ok (ByteClass.pattern ⟨.word, false⟩) ∧
      (ByteClass.pattern ⟨.word, false⟩).nodeCount = 5 ∧
      (ByteClass.pattern ⟨.word, false⟩).nodeCount ≤ 3 * ['\\', 'w'].length - 1 := by
  have h : parse ['\\', 'w'] = .ok (ByteClass.pattern ⟨.word, false⟩) := by
    with_unfolding_all rfl
  exact ⟨h, rfl, parse_size h⟩

end OctetPattern
