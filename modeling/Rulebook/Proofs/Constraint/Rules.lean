/-
Formulas as rules.

The rule of a parsed formula stands on one line if its texts and fields do, and so does every error
about it.
-/

import Rulebook.Constraint.Document
import Rulebook.Proofs.Constraint.Lines

namespace Rulebook.Emit.Constraint

open List Formula Text

variable {e c : Expr} {es : List Expr} {t : String} {f : Error}

/-! ### How a rule is put together -/

/-- The parts of a formula that its rule shows: an `IF` shows no more than three. -/
def shown : Expr → List Expr
  | .call name args => if name = "IF" then args.take 3 else args
  | e => e.children

theorem mem_children_of_shown (h : c ∈ shown e) : c ∈ e.children := by
  cases e with
  | call name args =>
    rw [shown] at h
    split at h
    · exact mem_of_mem_take h
    · exact h
  | _ => exact h

abbrev Texts (es : List Expr) (ts : List String) : Prop :=
  Forall₂ (fun e t => render dialect e = .ok t) es ts

theorem exists_of_mem_texts (h : Texts es ts) (ht : t ∈ ts) :
    ∃ e ∈ es, render dialect e = .ok t := by
  induction h with
  | nil => simp at ht
  | cons he _ ih => grind

/-- The rule of a formula, from the texts of the parts that it shows. -/
inductive Framed : Expr → List String → String → Prop
  | bool (b : Bool) : Framed (.bool b) [] (if b then "true" else "false")
  | int (n : Int) : Framed (.int n) [] (toString n)
  | str (s : String) : Framed (.str s) [] ("'" ++ escape s ++ "'")
  | misfit (type : Datatype) (v : Value) (t : String) : Framed (.misfit type v) [] t
  | field (name : String) : Framed (.field name) [] (attr name)
  | negation (e : Expr) (t : String) : Framed (.unary "NOT" e) [t] ("not (" ++ t ++ ")")
  | relation (op : Relation) (l r : Expr) (t u : String) :
      Framed (.binary op l r) [t, u] ("(" ++ t ++ " " ++ sign op ++ " " ++ u ++ ")")
  | and (es : List Expr) (ts : List String) :
      Framed (.call "AND" es) ts ("(" ++ " and ".intercalate ts ++ ")")
  | or (es : List Expr) (ts : List String) :
      Framed (.call "OR" es) ts ("(" ++ " or ".intercalate ts ++ ")")
  | choice (cond yes : Expr) (t u : String) :
      Framed (.call "IF" [cond, yes]) [t, u]
        ("if " ++ t ++ " then " ++ u ++ " else " ++ "''" ++ " endif")
  | choiceElse (cond yes no : Expr) (rest : List Expr) (t u w : String) :
      Framed (.call "IF" (cond :: yes :: no :: rest)) [t, u, w]
        ("if " ++ t ++ " then " ++ u ++ " else " ++ w ++ " endif")
  | callNot (e : Expr) (t : String) : Framed (.call "NOT" [e]) [t] ("not (" ++ t ++ ")")
  | lower (e : Expr) (t : String) : Framed (.call "LOWER" [e]) [t] (t ++ ".toLower()")
  | find (needle haystack : Expr) (t u : String) :
      Framed (.call "FIND" [needle, haystack]) [t, u] (u ++ ".indexOf(" ++ t ++ ")")
  | concat (es : List Expr) (ts : List String) : Framed (.concat es) ts (" + ".intercalate ts)

/-- A construct that has no rule, and what is said about it. -/
inductive Refused : Expr → Error → Prop
  | misfit (type : Datatype) (v : Value) (f : Error) : Refused (.misfit type v) f
  | unary {op : String} (e : Expr) : op ≠ "NOT" → Refused (.unary op e) (.unknownUnary op)
  | function (name : String) (es : List Expr) : Refused (.call name es) (.unknownFunction name)
  | arity {name : String} (es : List Expr) (need : Arity) :
      name ∈ ["IF", "NOT", "LOWER", "FIND"] → Refused (.call name es) (.arity name need)

theorem gather_cases (es) :
    (∃ c ∈ es, ∃ f, render dialect c = .error f ∧ gather (renderAll dialect es) = .error f) ∨
    ∃ ts, Texts es ts ∧ gather (renderAll dialect es) = .ok ts ∧ (es.zip ts).map Prod.snd = ts := by
  induction es with
  | nil => exact .inr ⟨[], .nil, rfl, rfl⟩
  | cons e es ih =>
    rw [renderAll]
    cases he : render dialect e with
    | error f => exact .inl ⟨e, by simp, f, he, rfl⟩
    | ok t =>
      rw [gather]
      rcases ih with ⟨c, hc, f, hf, hgather⟩ | ⟨ts, hts, hgather, hzip⟩
      · exact .inl ⟨c, by simp [hc], f, hf, by rw [hgather]; rfl⟩
      · exact .inr ⟨t :: ts, .cons he hts, by rw [hgather]; rfl, by simp [hzip]⟩

/-- What becomes of a formula: the error of a part that it shows, an error of its own, or a rule
that is put together from those of its parts. -/
inductive Outcome (e : Expr) : Except Error String → Prop
  | part {c : Expr} {f : Error} : c ∈ shown e → render dialect c = .error f → Outcome e (.error f)
  | refused {f : Error} : Refused e f → Outcome e (.error f)
  | rule {ts : List String} {t : String} : Texts (shown e) ts → Framed e ts t → Outcome e (.ok t)

theorem outcome_joined (hshown : shown e = es) {frame : List String → String}
    (hframe : ∀ ts, Framed e ts (frame ts)) :
    Outcome e ((gather (renderAll dialect es)).map fun ts => frame ((es.zip ts).map Prod.snd)) := by
  subst hshown
  rcases gather_cases (shown e) with ⟨c, hc, f, hf, hgather⟩ | ⟨ts, hts, hgather, hzip⟩
  · rw [hgather]
    exact .part hc hf
  · rw [hgather]
    simp only [Except.map, hzip]
    exact .rule hts (hframe ts)

theorem outcome_single (hshown : shown e = [c])
    (hframe : ∀ t, Framed e [t] (frame t)) : Outcome e ((render dialect c).map frame) := by
  cases hc : render dialect c with
  | error f => exact .part (by simp [hshown]) hc
  | ok t => exact .rule (by rw [hshown]; exact .cons hc .nil) (hframe t)

theorem outcome_pair (hshown : shown e = [c, d]) {frame : String → String → String}
    (hframe : ∀ t u, Framed e [t, u] (frame t u)) :
    Outcome e (render dialect c >>= fun t => render dialect d >>= fun u => .ok (frame t u)) := by
  cases hc : render dialect c with
  | error f => exact .part (by simp [hshown]) hc
  | ok t =>
    cases hd : render dialect d with
    | error f => exact .part (by simp [hshown]) hd
    | ok u => exact .rule (by rw [hshown]; exact .cons hc (.cons hd .nil)) (hframe t u)

theorem outcome_choice (args) :
    Outcome (.call "IF" args) (renderCall dialect "IF" args (renderAll dialect args)) := by
  have hfew : Outcome (.call "IF" args) (.error (.arity "IF" (.atLeast 2))) :=
    .refused (.arity _ _ (by simp))
  rcases args with _ | ⟨cond, _ | ⟨yes, _ | ⟨no, rest⟩⟩⟩
  · exact hfew
  · exact hfew
  · exact outcome_pair rfl fun t u => .choice cond yes t u
  · have hshown : shown (.call "IF" (cond :: yes :: no :: rest)) = [cond, yes, no] := rfl
    have hcall : renderCall dialect "IF" (cond :: yes :: no :: rest)
        (renderAll dialect (cond :: yes :: no :: rest)) = (do
          let t ← render dialect cond
          let u ← render dialect yes
          let w ← render dialect no
          .ok ("if " ++ t ++ " then " ++ u ++ " else " ++ w ++ " endif")) := rfl
    rw [hcall]
    cases hc : render dialect cond with
    | error f => exact .part (by simp [hshown]) hc
    | ok t =>
      cases hy : render dialect yes with
      | error f => exact .part (by simp [hshown]) hy
      | ok u =>
        cases hn : render dialect no with
        | error f => exact .part (by simp [hshown]) hn
        | ok w =>
          have hts : Texts (shown (.call "IF" (cond :: yes :: no :: rest))) [t, u, w] :=
            .cons hc (.cons hy (.cons hn .nil))
          exact .rule hts (.choiceElse cond yes no rest t u w)

theorem outcome_call (name args) :
    Outcome (.call name args) (renderCall dialect name args (renderAll dialect args)) := by
  have hfew : ∀ need, name ∈ ["IF", "NOT", "LOWER", "FIND"] →
      Outcome (.call name args) (.error (.arity name need)) := fun need h =>
    .refused (.arity _ _ h)
  by_cases hif : name = "IF"
  · subst hif
    exact outcome_choice args
  have hshown : shown (.call name args) = args := if_neg hif
  unfold renderCall
  split
  · next h =>
    subst h
    exact outcome_joined hshown fun ts => .and args ts
  split
  · next h =>
    subst h
    exact outcome_joined hshown fun ts => .or args ts
  split
  · next h =>
    subst h
    rcases args with _ | ⟨a, _ | ⟨b, rest⟩⟩
    · exact hfew _ (by simp)
    · exact outcome_single hshown fun t => .callNot a t
    · exact hfew _ (by simp)
  split
  · next h =>
    subst h
    rcases args with _ | ⟨a, _ | ⟨b, rest⟩⟩
    · exact hfew _ (by simp)
    · exact outcome_single hshown fun t => .lower a t
    · exact hfew _ (by simp)
  split
  · next h =>
    subst h
    rcases args with _ | ⟨a, _ | ⟨b, _ | ⟨c, rest⟩⟩⟩
    · exact hfew _ (by simp)
    · exact hfew _ (by simp)
    · exact outcome_pair hshown fun t u => .find a b t u
    · exact hfew _ (by simp)
  · exact .refused (.function name args)

/-- **The step.** A formula passes on the error of a part, is refused, or has a rule that is put
together from the rules of its parts. -/
theorem outcome_render (e) : Outcome e (render dialect e) := by
  cases e with
  | bool b => exact .rule .nil (.bool b)
  | int n => exact .rule .nil (.int n)
  | str s => exact .rule .nil (.str s)
  | field name => exact .rule .nil (.field name)
  | misfit type v =>
    cases h : render dialect (.misfit type v) with
    | error f => exact .refused (.misfit type v f)
    | ok t => exact .rule .nil (.misfit type v t)
  | unary op e =>
    rw [render]
    split
    · next h =>
      subst h
      exact outcome_single rfl fun t => .negation e t
    · next h => exact .refused (.unary e h)
  | binary op l r =>
    have hpair := outcome_pair (e := .binary op l r) rfl fun t u => .relation op l r t u
    rw [render]
    split
    · next f h => exact .part (by simp [shown, Expr.children]) h
    · next f hl hr => exact .part (by simp [shown, Expr.children]) hr
    · next t u hl hr =>
      rw [hl, hr] at hpair
      exact hpair
  | call name args => exact outcome_call name args
  | concat parts =>
    have hjoined :=
      outcome_joined (show shown (.concat parts) = parts from rfl) fun ts => .concat parts ts
    rw [render]
    split
    · next f h =>
      rw [h] at hjoined
      exact hjoined
    · next ts h =>
      rw [h] at hjoined
      exact hjoined

/-! ### Rules on one line -/

def OnOneLine : Expr → Prop
  | .str s | .field s => Unbroken s
  | _ => True

theorem unbroken_literal (h : Unbroken s) : Unbroken ("'" ++ escape s ++ "'") := by
  have hchars : '\n' ∉ Rulebook.Constraint.literalChars s.toList := by
    intro hmem
    obtain ⟨c, hc, hmem⟩ := mem_flatMap.mp hmem
    split at hmem
    · simp at hmem
    · exact h (mem_singleton.mp hmem ▸ hc)
  rw [Unbroken, Rulebook.Constraint.toList_literal]
  simp [hchars]

theorem unbroken_sign (op) : Unbroken (sign op) := by
  cases op with
  | other => exact (by decide : Unbroken "=")
  | _ => decide

theorem unbroken_attr (h : Unbroken name) : Unbroken (attr name) := by
  unfold attr
  split
  · decide
  · exact .append (by decide) (Names.unbroken_camel h)

theorem Framed.unbroken (h : Framed e ts t)
    (hfits : ∀ type v, e ≠ .misfit type v) (he : OnOneLine e) (hts : ∀ t ∈ ts, Unbroken t) :
    Unbroken t := by
  cases h with
  | bool b => cases b <;> decide
  | int n => exact unbroken_toString n
  | str s => exact unbroken_literal he
  | misfit type v => exact absurd rfl (hfits type v)
  | field name => exact unbroken_attr he
  | negation | callNot => exact .append (.append (by decide) (hts _ (by simp))) (by decide)
  | relation op l r t u =>
    have hleft : Unbroken ("(" ++ t ++ " ") :=
      .append (.append (by decide) (hts t (by simp))) (by decide)
    exact (((hleft.append (unbroken_sign op)).append (by decide)).append (hts u (by simp))).append
      (by decide)
  | and | or =>
    exact .append (.append (by decide) (unbroken_intercalate (by decide) hts)) (by decide)
  | choice cond yes t u =>
    have hyes : Unbroken ("if " ++ t ++ " then " ++ u) :=
      .append (.append (.append (by decide) (hts t (by simp))) (by decide)) (hts u (by simp))
    exact ((hyes.append (by decide)).append (by decide)).append (by decide)
  | choiceElse cond yes no rest t u w =>
    have hyes : Unbroken ("if " ++ t ++ " then " ++ u) :=
      .append (.append (.append (by decide) (hts t (by simp))) (by decide)) (hts u (by simp))
    exact ((hyes.append (by decide)).append (hts w (by simp))).append (by decide)
  | lower e t => exact .append (hts t (by simp)) (by decide)
  | find needle haystack t u =>
    exact .append (.append (.append (hts u (by simp)) (by decide)) (hts t (by simp))) (by decide)
  | concat => exact unbroken_intercalate (by decide) hts

theorem unbroken_of_render (hbuilt : ∀ s ∈ e.subterms, Built p s)
    (hlines : ∀ s ∈ e.subterms, OnOneLine s) (h : render dialect e = .ok t) : Unbroken t := by
  induction e using Expr.children_induction generalizing t with
  | step e ih =>
    have houtcome := outcome_render e
    rw [h] at houtcome
    cases houtcome with
    | rule hts hframed =>
      have hself := hbuilt e e.mem_subterms_self
      refine hframed.unbroken ?_ (hlines e e.mem_subterms_self) fun t ht => ?_
      · rintro type v rfl
        exact hself
      · obtain ⟨c, hc, hrender⟩ := exists_of_mem_texts hts ht
        have hchild := mem_children_of_shown hc
        exact ih c hchild (fun s hs => hbuilt s (Expr.mem_subterms_of_child hchild hs))
          (fun s hs => hlines s (Expr.mem_subterms_of_child hchild hs)) hrender

theorem unbroken_arity (need : Arity) : Unbroken need.message := by
  have hcount : ∀ n, Unbroken (argumentCount n) := fun n => by
    refine Unbroken.append (unbroken_toString_nat n) ?_
    split <;> decide
  cases need with
  | exactly n => exact hcount n
  | atLeast n => exact .append (by decide) (hcount n)

theorem Refused.unbroken (h : Refused e f) (he : Built (fun l => ∃ w, Sheet.Spells l w) e) :
    Unbroken f.message := by
  cases h with
  | misfit => exact absurd he id
  | unary e hop => exact absurd he hop
  | function name es =>
    obtain ⟨⟨word, ⟨w, -, hw, rfl⟩, rfl⟩, -⟩ := he
    have hline : '\n' ∉ w := fun hmem => absurd (hw _ hmem) (by decide)
    refine .append (by decide) ?_
    rw [Unbroken, upper, String.toList_ofList, String.toList_ofList]
    exact lineFeed_notMem_upperChars (lineFeed_notMem_upperChars hline)
  | @arity name es need hname =>
    have hknown : Unbroken name := by
      revert hname
      simp only [mem_cons, not_mem_nil, or_false]
      rintro (rfl | rfl | rfl | rfl) <;> decide
    exact (hknown.append (by decide)).append (unbroken_arity need)

theorem unbroken_of_refused (hbuilt : ∀ s ∈ e.subterms, Built (fun l => ∃ w, Sheet.Spells l w) s)
    (h : render dialect e = .error f) : Unbroken f.message := by
  induction e using Expr.children_induction generalizing f with
  | step e ih =>
    have houtcome := outcome_render e
    rw [h] at houtcome
    cases houtcome with
    | part hc hrender =>
      have hchild := mem_children_of_shown hc
      exact ih _ hchild (fun s hs => hbuilt s (Expr.mem_subterms_of_child hchild hs)) hrender
    | refused hrefused => exact hrefused.unbroken (hbuilt e e.mem_subterms_self)

end Rulebook.Emit.Constraint

namespace Rulebook.Constraint

open Text Emit.Constraint

variable {c : Column} {s : String}

theorem ofColumn_eq (hs : c.formula = .str s) : ofColumn c =
    (Formula.parse s).bind fun e => (Emit.render dialect e).mapError Emit.Error.fault := by
  simp only [ofColumn, Column.expression, hs, Value.asText, ok_bind]
  rfl

theorem unbroken_of_ofColumn_error (hs : c.formula = .str s)
    (h : ofColumn c = .error f) : Unbroken f.message := by
  rw [ofColumn_eq hs] at h
  cases hparse : Formula.parse s with
  | error f' =>
    rw [hparse] at h
    cases h
    exact Formula.unbroken_of_parse hparse
  | ok e =>
    cases hrender : Emit.render dialect e with
    | ok t => simp [hparse, hrender, Except.bind, Except.mapError] at h
    | error f' =>
      obtain rfl : f'.fault = f := by
        simpa [hparse, hrender, Except.bind, Except.mapError] using h
      have hmessage := unbroken_of_refused (Sheet.built_of_parse hparse) hrender
      cases f' <;> exact hmessage

theorem unbroken_of_ofColumn (hs : c.formula = .str s)
    (hlines : ∀ e, Formula.parse s = .ok e → ∀ x ∈ e.subterms, OnOneLine x)
    (h : ofColumn c = .ok rule) : Unbroken rule := by
  rw [ofColumn_eq hs] at h
  cases hparse : Formula.parse s with
  | error f => simp [hparse, Except.bind] at h
  | ok e =>
    have hrender : Emit.render dialect e = .ok rule := by
      cases ht : Emit.render dialect e with
      | error f => simp [hparse, ht, Except.bind, Except.mapError] at h
      | ok t => simpa [hparse, ht, Except.bind, Except.mapError] using h
    exact unbroken_of_render (Sheet.built_of_parse hparse) (hlines e hparse) hrender

end Rulebook.Constraint
