import Mathlib.Data.List.Forall2
import QueryPlanner.Expr.Render
import QueryPlanner.Proofs.Expr.Inert
import QueryPlanner.Proofs.Text.Runs

/-!
# How the text of a formula groups its operands

An operand stands in parentheses if it is an operation with another operator.  Operations with one
operator are written without parentheses on either side, so the text shows the operands of a chain
and not their grouping.  For an associative operator the groupings mean the same.  For the others
the text is only faithful as long as the chain is grouped to the left.

* `Expr.Regroups` — expressions that differ in how chains of given operators are grouped
* `Expr.NestsRight` — the operators that occur as the right operand of themselves
* `Expr.chain`, `Expr.toList_renderOperand` — the operands that a text shows, and the text
* `Expr.Reads`, `Expr.Formula.reads_chain` — the text of an operand ends where it ends
* `Expr.Tidy.render_eq_iff` — the formulas that have one text
* `Expr.render_formulas` — all formulas, and those grouped to the left
* `Expr.Regroups.value_eq` — regrouping associative operators keeps the value
-/

namespace QueryPlanner

/-- Operators on numbers whose chains mean the same however they are grouped. -/
def BinaryOp.isAssociative : BinaryOp → Bool
  | add | mul => true
  | _ => false

namespace Expr

/-- Fields and operations on formulas.  The names of the fields hold no blank and no closing
parenthesis. -/
inductive Formula : Expr → Prop
  | field {ix name} (plain : ∀ c ∈ name.toList, c ≠ ' ' ∧ c ≠ ')') : Formula (.field ix name)
  | binary {op left right} (hleft : Formula left) (hright : Formula right) :
    Formula (.binary op left right)

/-- The name of a field is tested character by character. -/
theorem Formula.of_all {ix : Nat} {name : String}
    (h : name.toList.all (fun c => c != ' ' && c != ')') = true) : Formula (.field ix name) :=
  .field fun c hc => by simpa using List.all_eq_true.mp h c hc

variable {allowed : BinaryOp → Prop}

/-- Expressions that differ only in how chains of allowed operators are grouped. -/
inductive Regroups (allowed : BinaryOp → Prop) : Expr → Expr → Prop
  | refl (e) : Regroups allowed e e
  | symm {a b} : Regroups allowed a b → Regroups allowed b a
  | trans {a b c} : Regroups allowed a b → Regroups allowed b c → Regroups allowed a c
  | operands {op a a' b b'} : Regroups allowed a a' → Regroups allowed b b' →
    Regroups allowed (.binary op a b) (.binary op a' b')
  | rotate {op a b c} : allowed op →
    Regroups allowed (.binary op (.binary op a b) c) (.binary op a (.binary op b c))

/-- Where an operation is the right operand of the same operator, the operator is allowed. -/
def NestsRight (allowed : BinaryOp → Prop) (e : Expr) : Prop :=
  ∀ op a b c, .binary op a (.binary op b c) ∈ e.walk → allowed op

theorem walk_binary (op : BinaryOp) (left right : Expr) :
    (binary op left right).walk = .binary op left right :: (left.walk ++ right.walk) := by
  rw [walk_mk]
  simp [Node.children]

theorem nestsRight_field (ix : Nat) (name : String) : NestsRight allowed (.field ix name) := by
  intro op a b c h
  rw [walk_mk] at h
  simp [Node.children] at h

/-- The operators that nest to the right in an operation. -/
theorem nestsRight_binary {op : BinaryOp} {left right : Expr} :
    NestsRight allowed (.binary op left right) ↔
      (∀ b c, right = .binary op b c → allowed op) ∧
        NestsRight allowed left ∧ NestsRight allowed right := by
  simp only [NestsRight, walk_binary, List.mem_cons, List.mem_append]
  constructor
  · intro h
    refine ⟨?_, fun op' a b c hm => h op' a b c (.inr (.inl hm)),
      fun op' a b c hm => h op' a b c (.inr (.inr hm))⟩
    rintro b c rfl
    exact h op left b c (.inl rfl)
  · rintro ⟨hroot, hleft, hright⟩ op' a b c (heq | hm | hm)
    · injection heq with hnode
      injection hnode with hop _ hnested
      subst hop
      exact hroot b c hnested.symm
    · exact hleft op' a b c hm
    · exact hright op' a b c hm

/-! ### The text of a chain -/

/-- The operands of a chain of one operator. -/
def chain (op : BinaryOp) : Expr → List Expr
  | ⟨.binary op' left right⟩ =>
    if op' = op then chain op left ++ chain op right else [.binary op' left right]
  | e => [e]

/-- An expression as an operand of another operator. -/
def closed : Expr → List Char
  | .binary op left right => '(' :: ((binary op left right).render.toList ++ [')'])
  | e => e.render.toList

/-- An operator between its operands. -/
def sign (op : BinaryOp) : List Char := ' ' :: (op.symbol.toList ++ [' '])

/-- Operands, an operator in front of each. -/
def signed (op : BinaryOp) (es : List Expr) : List Char := es.flatMap fun e => sign op ++ closed e

/-- Operands with an operator between them. -/
def joined (op : BinaryOp) : List Expr → List Char
  | [] => []
  | e :: es => closed e ++ signed op es

theorem render_field (ix : Nat) (name : String) :
    (field ix name).render = "&" ++ toString ix ++ "." ++ name := by
  rw [render, fold_mk]
  rfl

theorem render_binary (op : BinaryOp) (left right : Expr) :
    (binary op left right).render = renderOperand op (left, left.render) ++ " " ++ op.symbol ++ " "
      ++ renderOperand op (right, right.render) := by
  rw [render, fold_mk]
  rfl

theorem chain_same (op : BinaryOp) (left right : Expr) :
    chain op (.binary op left right) = chain op left ++ chain op right := by
  rw [chain, if_pos rfl]

/-- Any other expression is a chain of one operand. -/
theorem chain_other {op : BinaryOp} {e : Expr} (h : ∀ left right, e ≠ .binary op left right) :
    chain op e = [e] := by
  unfold chain
  split
  · next op' left right =>
    have hop : op' ≠ op := by
      rintro rfl
      exact h left right rfl
    exact if_neg hop
  · rfl

/-- Induction along the chains of one operator. -/
theorem chain_induction (op : BinaryOp) {P : Expr → Prop}
    (other : ∀ e, (∀ left right, e ≠ .binary op left right) → P e)
    (same : ∀ left right, P left → P right → P (.binary op left right)) : ∀ e, P e := by
  refine induction fun n ih => ?_
  by_cases h : ∃ left right, n = .binary op left right
  · obtain ⟨left, right, rfl⟩ := h
    exact same left right (ih left (by simp [Node.children])) (ih right (by simp [Node.children]))
  · refine other _ fun left right heq => h ⟨left, right, ?_⟩
    exact congrArg Expr.node heq

theorem chain_ne_nil (op : BinaryOp) (e : Expr) : chain op e ≠ [] := by
  induction e using chain_induction op with
  | other e he => simp [chain_other he]
  | same left right hleft _ => simp [chain_same, hleft]

theorem signed_eq (op : BinaryOp) {es : List Expr} (h : es ≠ []) :
    signed op es = sign op ++ joined op es := by
  obtain ⟨e, es, rfl⟩ := List.exists_cons_of_ne_nil h
  simp [signed, joined, List.append_assoc]

theorem joined_append (op : BinaryOp) {es es' : List Expr} (h : es ≠ []) :
    joined op (es ++ es') = joined op es ++ signed op es' := by
  obtain ⟨e, es, rfl⟩ := List.exists_cons_of_ne_nil h
  simp [signed, joined, List.append_assoc]

theorem renderOperand_other {op : BinaryOp} {e : Expr}
    (h : ∀ left right, e ≠ .binary op left right) :
    (renderOperand op (e, e.render)).toList = closed e := by
  obtain ⟨n⟩ := e
  cases n with
  | binary op' left right =>
    have hop : op' ≠ op := by
      rintro rfl
      exact h left right rfl
    simp [renderOperand, closed, if_neg hop]
  | _ => rfl

/-- An operand is shown as its chain. -/
theorem toList_renderOperand (op : BinaryOp) (e : Expr) :
    (renderOperand op (e, e.render)).toList = joined op (chain op e) := by
  induction e using chain_induction op with
  | other e he => simp [renderOperand_other he, chain_other he, joined, signed]
  | same left right hleft hright =>
    rw [chain_same, joined_append _ (chain_ne_nil _ _), signed_eq _ (chain_ne_nil _ _), ← hleft,
      ← hright]
    simp [renderOperand, render_binary, sign]

/-- An operation is shown as the chain of its operator. -/
theorem toList_render_binary (op : BinaryOp) (left right : Expr) :
    (binary op left right).render.toList = joined op (chain op (.binary op left right)) := by
  rw [← toList_renderOperand]
  simp [renderOperand]

/-- What passes from an operation to its operands passes to the operands of a chain. -/
theorem forall_chain {P : Expr → Prop}
    (hP : ∀ op left right, P (.binary op left right) → P left ∧ P right) (op : BinaryOp) {e : Expr}
    (h : P e) : ∀ x ∈ chain op e, P x := by
  induction e using chain_induction op with
  | other e he => simpa [chain_other he] using h
  | same left right hleft hright =>
    obtain ⟨hl, hr⟩ := hP _ _ _ h
    intro x hx
    rw [chain_same, List.mem_append] at hx
    exact hx.elim (hleft hl x) (hright hr x)

/-- A chain of an operation has at least two operands. -/
theorem chain_binary (op : BinaryOp) (left right : Expr) :
    ∃ x y ys, chain op (.binary op left right) = x :: y :: ys := by
  obtain ⟨x, xs, hleft⟩ := List.exists_cons_of_ne_nil (chain_ne_nil op left)
  obtain ⟨y, ys, hright⟩ := List.exists_cons_of_ne_nil (chain_ne_nil op right)
  rw [chain_same, hleft, hright]
  cases xs with
  | nil => exact ⟨x, y, ys, rfl⟩
  | cons x' xs => exact ⟨x, x', xs ++ y :: ys, rfl⟩

/-! ### Regrouping a chain -/

/-- Chains of operands that regroup are regrouped. -/
theorem Regroups.foldl {op : BinaryOp} {es es' : List Expr}
    (h : List.Forall₂ (Regroups allowed) es es') {e e' : Expr} (he : Regroups allowed e e') :
    Regroups allowed (es.foldl (.binary op) e) (es'.foldl (.binary op) e') := by
  induction h generalizing e e' with
  | nil => exact he
  | cons hhead _ ih => exact ih (he.operands hhead)

/-- A chain as a right operand, grouped to the left instead. -/
theorem regroups_foldl {op : BinaryOp} (hop : allowed op) (a e : Expr) (es : List Expr) :
    Regroups allowed (.binary op a (es.foldl (.binary op) e))
      (es.foldl (.binary op) (.binary op a e)) := by
  induction es generalizing e with
  | nil => exact .refl _
  | cons e' es ih =>
    have hrotate : Regroups allowed (binary op a (.binary op e e'))
        (.binary op (.binary op a e) e') := (Regroups.rotate hop).symm
    exact (ih (.binary op e e')).trans
      (Regroups.foldl (List.forall₂_same.mpr fun x _ => Regroups.refl x) hrotate)

/-- Every expression regroups to its chain, grouped to the left. -/
theorem regroups_chain {op : BinaryOp} {e : Expr} (h : NestsRight allowed e) {x : Expr}
    {xs : List Expr} (hchain : chain op e = x :: xs) :
    Regroups allowed e (xs.foldl (.binary op) x) := by
  induction e using chain_induction op generalizing x xs with
  | other e he =>
    rw [chain_other he, List.cons.injEq] at hchain
    obtain ⟨rfl, rfl⟩ := hchain
    exact .refl _
  | same left right ihleft ihright =>
    obtain ⟨hroot, hleft, hright⟩ := nestsRight_binary.mp h
    obtain ⟨y, ys, hys⟩ := List.exists_cons_of_ne_nil (chain_ne_nil op left)
    obtain ⟨z, zs, hzs⟩ := List.exists_cons_of_ne_nil (chain_ne_nil op right)
    rw [chain_same, hys, hzs, List.cons_append, List.cons.injEq] at hchain
    obtain ⟨rfl, rfl⟩ := hchain
    rw [List.foldl_append, List.foldl_cons]
    have hoperands : Regroups allowed (binary op left right)
        (.binary op (ys.foldl (.binary op) y) (zs.foldl (.binary op) z)) :=
      (ihleft hleft hys).operands (ihright hright hzs)
    by_cases hop : allowed op
    · exact hoperands.trans (regroups_foldl hop _ _ _)
    · -- the right operand is no operation with this operator, so it is a chain of one
      rw [chain_other fun b c hbc => hop (hroot b c hbc), List.cons.injEq] at hzs
      obtain ⟨rfl, rfl⟩ := hzs
      exact hoperands

/-! ### Reading a text -/

theorem symbol_ne_blank (op : BinaryOp) : ∀ c ∈ op.symbol.toList, (c != ' ') = true :=
  List.all_eq_true.mp (by cases op <;> decide)

theorem symbol_inj {op op' : BinaryOp} (h : op.symbol = op'.symbol) : op = op' := by
  revert h
  cases op <;> cases op' <;> decide

/-- An operator ends at the blank after it. -/
theorem sign_append_inj {op op' : BinaryOp} {s t : List Char} (h : sign op ++ s = sign op' ++ t) :
    op = op' ∧ s = t := by
  simp only [sign, List.cons_append, List.append_assoc, List.nil_append, List.cons.injEq,
    true_and] at h
  obtain ⟨hsymbol, hrest⟩ := Text.run_append_inj (symbol_ne_blank op) (symbol_ne_blank op')
    (by simp) (by simp) h
  exact ⟨symbol_inj (String.toList_inj.mp hsymbol), (List.cons.inj hrest).2⟩

/-- What comes after a formula: nothing, or the end of parentheses. -/
def Stops (s : List Char) : Prop := ∀ c ∈ s.head?, c = ')'

/-- What comes after an operand: an operator as well. -/
def Ends (s : List Char) : Prop := ∀ c ∈ s.head?, c = ' ' ∨ c = ')'

theorem Stops.ends_signed {s : List Char} (hs : Stops s) (op : BinaryOp) (es : List Expr) :
    Ends (signed op es ++ s) := by
  cases es with
  | nil => exact fun c hc => .inr (hs c hc)
  | cons e es => simp [Ends, signed, sign]

/-- A formula in which only allowed operators are nested to the right. -/
def Tidy (allowed : BinaryOp → Prop) (e : Expr) : Prop := e.Formula ∧ NestsRight allowed e

theorem Tidy.operands {op : BinaryOp} {left right : Expr}
    (h : Tidy allowed (.binary op left right)) :
    Tidy allowed left ∧ Tidy allowed right := by
  obtain ⟨hformula, hnests⟩ := h
  obtain ⟨-, hleft, hright⟩ := nestsRight_binary.mp hnests
  cases hformula with
  | binary hl hr => exact ⟨⟨hl, hleft⟩, hr, hright⟩

/-- The text of an operand ends where it ends, and determines the operand up to regrouping. -/
def Reads (allowed : BinaryOp → Prop) (e : Expr) : Prop :=
  ∀ e', Tidy allowed e' → ∀ s t, Ends s → Ends t → closed e ++ s = closed e' ++ t →
    Regroups allowed e e' ∧ s = t

/-- The end of a chain is where no operator follows. -/
theorem signed_append_inj {op : BinaryOp} {es es' : List Expr} (hes : ∀ e ∈ es, Reads allowed e)
    (hes' : ∀ e ∈ es', Tidy allowed e) {s t : List Char} (hs : Stops s) (ht : Stops t)
    (h : signed op es ++ s = signed op es' ++ t) :
    List.Forall₂ (Regroups allowed) es es' ∧ s = t := by
  induction es generalizing es' with
  | nil =>
    cases es' with
    | nil => exact ⟨.nil, h⟩
    | cons e' es' =>
      have hblank : s.head? = some ' ' := by simpa [signed, sign] using congrArg List.head? h
      exact absurd (hs ' ' hblank) (by decide)
  | cons e es ih =>
    cases es' with
    | nil =>
      have hblank : t.head? = some ' ' := by simpa [signed, sign] using congrArg List.head? h.symm
      exact absurd (ht ' ' hblank) (by decide)
    | cons e' es' =>
      simp only [signed, List.flatMap_cons, List.append_assoc] at h
      obtain ⟨-, hclosed⟩ := sign_append_inj h
      obtain ⟨hhead, hrest⟩ := hes e List.mem_cons_self e' (hes' e' List.mem_cons_self) _ _
        (hs.ends_signed op es) (ht.ends_signed op es') hclosed
      obtain ⟨htail, hend⟩ := ih (fun x hx => hes x (List.mem_cons_of_mem _ hx))
        (fun x hx => hes' x (List.mem_cons_of_mem _ hx)) hrest
      exact ⟨.cons hhead htail, hend⟩

/-- The text of an operation determines it as far as the texts of the operands of its chain do. -/
theorem render_append_inj {op op' : BinaryOp} {left right left' right' : Expr}
    (htidy : Tidy allowed (.binary op left right))
    (htidy' : Tidy allowed (.binary op' left' right'))
    (hreads : ∀ x ∈ chain op (.binary op left right), Reads allowed x) {s t : List Char}
    (hs : Stops s) (ht : Stops t)
    (h : (binary op left right).render.toList ++ s = (binary op' left' right').render.toList ++ t) :
    Regroups allowed (.binary op left right) (.binary op' left' right') ∧ s = t := by
  have hparts := forall_chain (fun _ _ _ => Tidy.operands) op' htidy'
  obtain ⟨x, y, ys, hchain⟩ := chain_binary op left right
  obtain ⟨x', y', ys', hchain'⟩ := chain_binary op' left' right'
  rw [toList_render_binary, toList_render_binary, hchain, hchain', joined, joined,
    List.append_assoc, List.append_assoc] at h
  rw [hchain] at hreads
  rw [hchain'] at hparts
  obtain ⟨hfirst, hrest⟩ := hreads x List.mem_cons_self x' (hparts x' List.mem_cons_self) _ _
    (hs.ends_signed op _) (ht.ends_signed op' _) h
  have hop : op = op' := by
    simp only [signed, List.flatMap_cons, List.append_assoc] at hrest
    exact (sign_append_inj hrest).1
  subst hop
  obtain ⟨hothers, hend⟩ := signed_append_inj (fun e he => hreads e (List.mem_cons_of_mem _ he))
    (fun e he => hparts e (List.mem_cons_of_mem _ he)) hs ht hrest
  refine ⟨?_, hend⟩
  exact (regroups_chain htidy.2 hchain).trans
    ((Regroups.foldl hothers hfirst).trans (regroups_chain htidy'.2 hchain').symm)

theorem closed_field (ix : Nat) (name : String) :
    closed (.field ix name) = '&' :: ((toString ix).toList ++ '.' :: name.toList) := by
  simp [closed, render_field]

/-- The text of a field starts with its number and ends with its name. -/
theorem reads_field {ix : Nat} {name : String} (plain : ∀ c ∈ name.toList, c ≠ ' ' ∧ c ≠ ')') :
    Reads allowed (.field ix name) := by
  rintro e' ⟨hformula, -⟩ s t hs ht h
  cases hformula with
  | binary =>
    rw [closed_field] at h
    simp [closed] at h
  | @field ix' name' plain' =>
    rw [closed_field, closed_field, List.cons_append, List.cons_append, List.cons.injEq,
      List.append_assoc, List.append_assoc, List.cons_append, List.cons_append] at h
    obtain ⟨rfl, hdot⟩ := Text.toString_append_inj (by simp) (by simp) h.2
    have hname : ∀ {cs : List Char}, (∀ c ∈ cs, c ≠ ' ' ∧ c ≠ ')') →
        ∀ c ∈ cs, (c != ' ' && c != ')') = true := fun hcs c hc => by simpa using hcs c hc
    have hend : ∀ {cs : List Char}, Ends cs → ∀ c ∈ cs.head?, (c != ' ' && c != ')') = false :=
      fun hcs c hc => by rcases hcs c hc with rfl | rfl <;> rfl
    obtain ⟨hsame, hrest⟩ := Text.run_append_inj (hname plain) (hname plain') (hend hs) (hend ht)
      (List.cons.inj hdot).2
    rw [String.toList_inj.mp hsame]
    exact ⟨.refl _, hrest⟩

/-- The parentheses around an operation are read with it. -/
theorem reads_binary {op : BinaryOp} {left right : Expr}
    (htidy : Tidy allowed (.binary op left right))
    (hreads : ∀ x ∈ chain op (.binary op left right), Reads allowed x) :
    Reads allowed (.binary op left right) := by
  intro e' htidy' s t hs ht h
  cases htidy'.1 with
  | field =>
    rw [closed_field] at h
    simp [closed] at h
  | binary =>
    simp only [closed, List.cons_append, List.append_assoc, List.nil_append, List.cons.injEq,
      true_and] at h
    obtain ⟨hregroups, hrest⟩ := render_append_inj htidy htidy' hreads
      (by simp [Stops]) (by simp [Stops]) h
    exact ⟨hregroups, (List.cons.inj hrest).2⟩

/-- Every operand of a formula can be read. -/
theorem Formula.reads_chain {e : Expr} (hformula : e.Formula) (hnests : NestsRight allowed e)
    (op : BinaryOp) : ∀ x ∈ chain op e, Reads allowed x := by
  induction hformula generalizing op with
  | field plain =>
    rw [chain_other (by simp)]
    simpa using reads_field plain
  | @binary op' left right hleft hright ihleft ihright =>
    obtain ⟨-, hnestsLeft, hnestsRight⟩ := nestsRight_binary.mp hnests
    have hsame : ∀ op, ∀ x ∈ chain op left ++ chain op right, Reads allowed x := by
      intro op x hx
      rcases List.mem_append.mp hx with hx | hx
      · exact ihleft hnestsLeft op x hx
      · exact ihright hnestsRight op x hx
    by_cases hop : op' = op
    · subst hop
      rw [chain_same]
      exact hsame op'
    · rw [chain_other (by simp [hop])]
      have hchain : ∀ x ∈ chain op' (.binary op' left right), Reads allowed x := by
        rw [chain_same]
        exact hsame op'
      simpa using reads_binary ⟨.binary hleft hright, hnests⟩ hchain

/-- A field is shown without blanks. -/
theorem render_field_ne_binary {ix : Nat} {name : String}
    (plain : ∀ c ∈ name.toList, c ≠ ' ' ∧ c ≠ ')') (op : BinaryOp) (left right : Expr) :
    (field ix name).render ≠ (binary op left right).render := by
  intro h
  have hblank : ' ' ∈ (field ix name).render.toList := by
    rw [h, render_binary]
    simp
  have hdigits : ' ' ∉ (toString ix).toList := fun hmem =>
    absurd (Text.isDigit_of_mem_toString hmem) (by decide)
  have hname : ' ' ∈ name.toList := by
    simp only [render_field, String.toList_append, List.mem_append, hdigits, or_false] at hblank
    exact hblank.resolve_left (by decide)
  exact (plain ' ' hname).1 rfl

/-! ### The formulas with one text -/

/-- Regrouping a chain changes no text, neither alone nor as an operand. -/
theorem Regroups.render_eq {a b : Expr} (h : Regroups allowed a b) : a.render = b.render ∧
    ∀ op, renderOperand op (a, a.render) = renderOperand op (b, b.render) := by
  induction h with
  | refl e => exact ⟨rfl, fun _ => rfl⟩
  | symm _ ih => exact ⟨ih.1.symm, fun op => (ih.2 op).symm⟩
  | trans _ _ ih ih' => exact ⟨ih.1.trans ih'.1, fun op => (ih.2 op).trans (ih'.2 op)⟩
  | @operands op a a' b b' _ _ iha ihb =>
    have htext : (binary op a b).render = (binary op a' b').render := by
      rw [render_binary, render_binary, iha.2, ihb.2]
    exact ⟨htext, fun op' => by simp only [renderOperand, htext]⟩
  | @rotate op a b c _ =>
    have htext : (binary op (.binary op a b) c).render = (binary op a (.binary op b c)).render := by
      simp [render_binary, renderOperand, String.append_assoc]
    exact ⟨htext, fun op' => by simp only [renderOperand, htext]⟩

/-- Formulas in which only allowed operators nest to the right have one text if and only if they
differ in how chains of allowed operators are grouped. -/
theorem Tidy.render_eq_iff {a b : Expr} (ha : Tidy allowed a) (hb : Tidy allowed b) :
    a.render = b.render ↔ Regroups allowed a b := by
  refine ⟨fun h => ?_, fun h => h.render_eq.1⟩
  have htext : a.render.toList ++ [] = b.render.toList ++ [] := by rw [h]
  cases ha.1 with
  | field plain =>
    cases hb.1 with
    | field => exact (reads_field plain _ hb [] [] (by simp [Ends]) (by simp [Ends]) htext).1
    | binary => exact absurd h (render_field_ne_binary plain _ _ _)
  | binary =>
    cases hb.1 with
    | field plain => exact absurd h.symm (render_field_ne_binary plain _ _ _)
    | binary =>
      exact (render_append_inj ha hb (ha.1.reads_chain ha.2 _) (by simp [Stops]) (by simp [Stops])
        htext).1

/-- Two formulas have one text if and only if they differ in how chains of one operator are grouped.
As long as the operators that are not associative are only chained to the left, the chains that
differ are those of associative operators. -/
theorem render_formulas {a b : Expr} (ha : a.Formula) (hb : b.Formula) :
    (a.render = b.render ↔ Regroups (fun _ => True) a b) ∧
      (NestsRight (·.isAssociative) a → NestsRight (·.isAssociative) b →
        (a.render = b.render ↔ Regroups (·.isAssociative) a b)) := by
  constructor
  · exact Tidy.render_eq_iff ⟨ha, fun _ _ _ _ _ => trivial⟩ ⟨hb, fun _ _ _ _ _ => trivial⟩
  · exact fun hnestsA hnestsB => Tidy.render_eq_iff ⟨ha, hnestsA⟩ ⟨hb, hnestsB⟩

/-- The margin of an order, a product of three factors grouped in two ways: one text. -/
theorem render_formulas_margin :
    let margin : Expr := .binary .sub (.field 0 "price") (.field 0 "cost")
    let units : Expr := .field 0 "units"
    let rate : Expr := .field 1 "rate"
    let left : Expr := .binary .mul (.binary .mul margin units) rate
    let right : Expr := .binary .mul margin (.binary .mul units rate)
    left.Formula ∧ right.Formula ∧ NestsRight (·.isAssociative) left ∧
      NestsRight (·.isAssociative) right ∧ left.render = right.render ∧
      left.render = "(&0.price - &0.cost) * &0.units * &1.rate" := by
  intro margin units rate left right
  have hfield : ∀ ix name, (name = "price" ∨ name = "cost" ∨ name = "units" ∨ name = "rate") →
      Formula (.field ix name) := by
    rintro ix name (rfl | rfl | rfl | rfl) <;> exact .of_all (by decide)
  have hmargin : margin.Formula := .binary (hfield _ _ (by simp)) (hfield _ _ (by simp))
  have hunits : units.Formula := hfield _ _ (by simp)
  have hrate : rate.Formula := hfield _ _ (by simp)
  have hleft : left.Formula := .binary (.binary hmargin hunits) hrate
  have hright : right.Formula := .binary hmargin (.binary hunits hrate)
  have hnests : NestsRight (·.isAssociative) left ∧ NestsRight (·.isAssociative) right := by
    simp [left, right, margin, units, rate, nestsRight_binary, nestsRight_field,
      BinaryOp.isAssociative]
  refine ⟨hleft, hright, hnests.1, hnests.2, ?_, by decide +kernel⟩
  exact ((render_formulas hleft hright).2 hnests.1 hnests.2).mpr (.rotate rfl)

/-! ### Chains that are not grouped to the left -/

/-- The value of a formula over integers; operations other than the four on numbers are zero. -/
def value (fields : Nat → String → Int) : Expr → Int :=
  fold fun
    | .field ix name => fields ix name
    | .binary .add left right => left.2 + right.2
    | .binary .sub left right => left.2 - right.2
    | .binary .mul left right => left.2 * right.2
    | .binary .div left right => left.2 / right.2
    | _ => 0

/-- Regrouping associative operators keeps the value. -/
theorem Regroups.value_eq {a b : Expr} (h : Regroups (·.isAssociative) a b)
    (fields : Nat → String → Int) : a.value fields = b.value fields := by
  induction h with
  | refl e => rfl
  | symm _ ih => exact ih.symm
  | trans _ _ ih ih' => exact ih.trans ih'
  | @operands op a a' b b' _ _ iha ihb =>
    cases op <;> simp only [value, fold_mk, Node.map] at iha ihb ⊢ <;> simp [iha, ihb]
  | @rotate op a b c hop =>
    cases op with
    | add => simp [value, fold_mk, Node.map, Int.add_assoc]
    | mul => simp [value, fold_mk, Node.map, Int.mul_assoc]
    | _ => cases hop

/-- The two differences of three fields have one text and different values. -/
theorem render_difference :
    let a : Expr := .field 0 "a"
    let b : Expr := .field 0 "b"
    let c : Expr := .field 0 "c"
    let left : Expr := .binary .sub (.binary .sub a b) c
    let right : Expr := .binary .sub a (.binary .sub b c)
    left.Formula ∧ right.Formula ∧ left.render = right.render ∧
      right.render = "&0.a - &0.b - &0.c" ∧ ¬ Regroups (·.isAssociative) left right := by
  intro a b c left right
  have hfield : a.Formula ∧ b.Formula ∧ c.Formula :=
    ⟨.of_all (by decide), .of_all (by decide), .of_all (by decide)⟩
  obtain ⟨ha, hb, hc⟩ := hfield
  refine ⟨.binary (.binary ha hb) hc, .binary ha (.binary hb hc), by decide +kernel,
    by decide +kernel, fun h => ?_⟩
  have hvalue := h.value_eq fun _ _ => 1
  exact absurd hvalue (by decide +kernel)

end Expr

end QueryPlanner
