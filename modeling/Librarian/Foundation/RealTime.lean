import Librarian.Foundation.Linearizability

/-! # What real time adds to a linearizable history

When one call returned before another was invoked, the two took effect in this order. So
whatever every step of the specification keeps holds between the states they met.
-/
namespace Librarian.Foundation
variable {Call Op Res Abs : Type} {spec : Abs → Op → Res → Abs → Prop} {a b c init : Abs}
  {l m : List (Entry Call Op Res)} {h : List (Event Call Op Res)}

theorem Legal.split (hl : Legal spec a (l ++ m) c) : ∃ b, Legal spec a l b ∧ Legal spec b m c := by
  induction l generalizing a with
  | nil => exact ⟨a, .nil a, hl⟩
  | cons e l ih =>
    cases hl with
    | cons he hrest =>
      obtain ⟨b, hb, hm⟩ := ih hrest
      exact ⟨b, .cons he hb, hm⟩

theorem Legal.invariant {I : Abs → Prop} (hstep : ∀ a op res b, I a → spec a op res b → I b)
    (hl : Legal spec a l b) (ha : I a) : I b := by
  induction hl with
  | nil => exact ha
  | cons he _ ih => exact ih (hstep _ _ _ _ ha he)

/-- A preorder that every step respects relates the ends of a sequential run. -/
theorem Legal.relates {I : Abs → Prop} {R : Abs → Abs → Prop}
    (hstep : ∀ a op res b, I a → spec a op res b → I b) (hrefl : ∀ a, R a a)
    (htrans : ∀ {a b c}, R a b → R b c → R a c)
    (hrel : ∀ a op res b, I a → spec a op res b → R a b) (hl : Legal spec a l b) (ha : I a) :
    R a b := by
  induction hl with
  | nil => exact hrefl _
  | cons he _ ih => exact htrans (hrel _ _ _ _ ha he) (ih (hstep _ _ _ _ ha he))

/-- The two calls stand in a sequential order as they do in real time. -/
theorem Linearizes.split (hl : Linearizes spec init h l) {e e' : Entry Call Op Res} (he : e ∈ l)
    (he' : e' ∈ l) (hne : e.call ≠ e'.call) (hp : Precedes h e.call e'.call) :
    ∃ before between after, l = before ++ e :: (between ++ e' :: after) := by
  obtain ⟨before, rest, rfl⟩ := List.append_of_mem he
  rcases List.mem_append.mp he' with hb | hr
  · have hpair := (List.pairwise_append.mp hl.realTime).2.2 e' hb e List.mem_cons_self
    exact absurd hp hpair
  · rcases List.mem_cons.mp hr with rfl | hr
    · exact absurd rfl hne
    · obtain ⟨between, after, rfl⟩ := List.append_of_mem hr
      exact ⟨before, between, after, rfl⟩

/-- A call that returned before another was invoked met an earlier state, and everything in
between was a sequence of steps. -/
theorem Linearizes.ordered {I : Abs → Prop} {R : Abs → Abs → Prop}
    (hstep : ∀ a op res b, I a → spec a op res b → I b) (hrefl : ∀ a, R a a)
    (htrans : ∀ {a b c}, R a b → R b c → R a c)
    (hrel : ∀ a op res b, I a → spec a op res b → R a b) (hl : Linearizes spec init h l)
    (hinit : I init) {e e' : Entry Call Op Res} (he : e ∈ l) (he' : e' ∈ l)
    (hne : e.call ≠ e'.call) (hp : Precedes h e.call e'.call) :
    ∃ a b x y, I a ∧ spec a e.op e.res b ∧ R b x ∧ I x ∧ spec x e'.op e'.res y := by
  obtain ⟨before, between, after, rfl⟩ := hl.split he he' hne hp
  obtain ⟨last, hlegal⟩ := hl.legal
  obtain ⟨a, hbefore, hrest⟩ := hlegal.split
  cases hrest with
  | @cons _ b _ _ _ hspec hrest =>
    obtain ⟨x, hbetween, hrest⟩ := hrest.split
    cases hrest with
    | @cons _ y _ _ _ hspec' _ =>
      have ha : I a := hbefore.invariant hstep hinit
      have hb : I b := hstep _ _ _ _ ha hspec
      exact ⟨a, b, x, y, ha, hspec, hbetween.relates hstep hrefl htrans hrel hb,
        hbetween.invariant hstep hb, hspec'⟩

end Librarian.Foundation
