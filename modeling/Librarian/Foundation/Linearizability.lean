import Mathlib.Data.List.Basic
import Mathlib.Data.List.Nodup

/-! # Linearizability of a history of concurrent calls

A history is the list of invocations and responses in the order they happened. It is
linearizable when some of its calls, among them every call that returned, can be put in
one sequential order that the specification allows and that respects real time. The main
result builds such an order from one point in time for each call.
-/
namespace Librarian.Foundation

inductive Event (Call Op Res : Type) where
  | invoke (c : Call) (op : Op)
  | respond (c : Call) (res : Res)
  deriving DecidableEq

/-- One call with the result it has in a sequential order. -/
structure Entry (Call Op Res : Type) where
  call : Call
  op : Op
  res : Res

variable {Call Op Res Abs : Type}

/-- `c` returned before `c'` was invoked. -/
def Precedes (h : List (Event Call Op Res)) (c c' : Call) : Prop :=
  ∃ (i j : ℕ) (res : Res) (op : Op), i < j ∧
    h[i]? = some (.respond c res) ∧ h[j]? = some (.invoke c' op)

/-- The sequential runs of a specification `spec before op result after`. -/
inductive Legal (spec : Abs → Op → Res → Abs → Prop) : Abs → List (Entry Call Op Res) → Abs → Prop
  | nil (a : Abs) : Legal spec a [] a
  | cons {a b c : Abs} {e : Entry Call Op Res} {l : List (Entry Call Op Res)}
      (h : spec a e.op e.res b) (hl : Legal spec b l c) : Legal spec a (e :: l) c

theorem Legal.append {spec : Abs → Op → Res → Abs → Prop} {a b c : Abs}
    {l m : List (Entry Call Op Res)} (hl : Legal spec a l b) (hm : Legal spec b m c) :
    Legal spec a (l ++ m) c := by
  induction hl with
  | nil a => exact hm
  | cons h _ ih => exact .cons h (ih hm)

theorem Legal.exists_spec {spec : Abs → Op → Res → Abs → Prop} {a b : Abs}
    {l : List (Entry Call Op Res)} (hl : Legal spec a l b) {e : Entry Call Op Res} (he : e ∈ l) :
    ∃ x y, spec x e.op e.res y := by
  induction hl with
  | nil a => simp at he
  | cons h _ ih =>
    rcases List.mem_cons.mp he with rfl | he
    · exact ⟨_, _, h⟩
    · exact ih he

/-- `l` is a sequential order that explains the history `h`. -/
structure Linearizes (spec : Abs → Op → Res → Abs → Prop) (init : Abs)
    (h : List (Event Call Op Res)) (l : List (Entry Call Op Res)) : Prop where
  unique : (l.map (·.call)).Nodup
  legal : ∃ b, Legal spec init l b
  invoked : ∀ e ∈ l, .invoke e.call e.op ∈ h
  completed : ∀ c res, .respond c res ∈ h → ∃ op, ⟨c, op, res⟩ ∈ l
  realTime : l.Pairwise fun e e' => ¬ Precedes h e'.call e.call

def Linearizable (spec : Abs → Op → Res → Abs → Prop) (init : Abs)
    (h : List (Event Call Op Res)) : Prop := ∃ l, Linearizes spec init h l

/-- Every answer in a linearizable history is one the specification can give. -/
theorem Linearizable.exists_spec {spec : Abs → Op → Res → Abs → Prop} {init : Abs}
    {h : List (Event Call Op Res)} (hl : Linearizable spec init h) {c : Call} {res : Res}
    (hr : .respond c res ∈ h) : ∃ x op y, spec x op res y := by
  rcases hl with ⟨l, hl⟩
  rcases hl.completed c res hr with ⟨op, he⟩
  rcases hl.legal with ⟨b, hb⟩
  rcases hb.exists_spec he with ⟨x, y, hxy⟩
  exact ⟨x, op, y, hxy⟩

/-- A timeline gives every moment below `length` at most one event of the history and at most
one call that takes effect there, between the call's invocation and its response. -/
structure Timeline (Call : Type) (spec : Abs → Op → Res → Abs → Prop) where
  length : ℕ
  event : ℕ → Option (Event Call Op Res)
  effect : ℕ → Option (Entry Call Op Res)
  state : ℕ → Abs
  stutters : ∀ t < length, effect t = none → state (t + 1) = state t
  acts : ∀ t < length, ∀ e, effect t = some e → spec (state t) e.op e.res (state (t + 1))
  once : ∀ t u, t < length → u < length → ∀ e f, effect t = some e → effect u = some f →
    e.call = f.call → t = u
  invoked : ∀ t < length, ∀ e, effect t = some e →
    ∃ i < length, event i = some (.invoke e.call e.op)
  afterInvoke : ∀ t < length, ∀ e, effect t = some e → ∀ i < length, ∀ op,
    event i = some (.invoke e.call op) → i ≤ t
  beforeRespond : ∀ t < length, ∀ e, effect t = some e → ∀ i < length, ∀ res,
    event i = some (.respond e.call res) → t ≤ i
  completed : ∀ i < length, ∀ c res, event i = some (.respond c res) →
    ∃ t < length, ∃ op, effect t = some ⟨c, op, res⟩

namespace Timeline
variable {spec : Abs → Op → Res → Abs → Prop} (T : Timeline Call spec)

def history : List (Event Call Op Res) := (List.range T.length).filterMap T.event

def order : List (Entry Call Op Res) := (List.range T.length).filterMap T.effect

theorem legal_upTo (n : ℕ) (hn : n ≤ T.length) :
    Legal spec (T.state 0) ((List.range n).filterMap T.effect) (T.state n) := by
  induction n with
  | zero => exact .nil _
  | succ n ih =>
    rw [List.range_succ, List.filterMap_append]
    refine (ih (by omega)).append ?_
    cases he : T.effect n with
    | none =>
      rw [T.stutters n (by omega) he]
      simpa [he] using (Legal.nil (T.state n) : Legal spec (T.state n) [] (T.state n))
    | some e =>
      have h := T.acts n (by omega) e he
      simpa [he] using Legal.cons h (.nil _)

/-- In a filtered range earlier positions carry earlier times. -/
theorem filterMap_range_get {α : Type} (f : ℕ → Option α) (n : ℕ) {i j : ℕ} {a b : α} (hij : i < j)
    (hi : ((List.range n).filterMap f)[i]? = some a)
    (hj : ((List.range n).filterMap f)[j]? = some b) :
    ∃ t u, t < u ∧ u < n ∧ f t = some a ∧ f u = some b := by
  induction n generalizing i j with
  | zero => simp at hi
  | succ n ih =>
    rw [List.range_succ, List.filterMap_append] at hi hj
    by_cases hjn : j < ((List.range n).filterMap f).length
    · rw [List.getElem?_append_left hjn] at hj
      rw [List.getElem?_append_left (Nat.lt_trans hij hjn)] at hi
      obtain ⟨t, u, htu, hu, ht, hb⟩ := ih hij hi hj
      exact ⟨t, u, htu, by omega, ht, hb⟩
    · rw [List.getElem?_append_right (by omega)] at hj
      cases hf : f n with
      | none => simp [hf] at hj
      | some x =>
        have hj0 : j = ((List.range n).filterMap f).length := by
          have := (List.getElem?_eq_some_iff.mp hj).1
          simp [hf] at this
          omega
        rw [List.getElem?_append_left (by omega)] at hi
        obtain ⟨t, ht, hta⟩ := List.mem_filterMap.mp (List.mem_of_getElem? hi)
        rw [List.mem_range] at ht
        refine ⟨t, n, ht, by omega, hta, ?_⟩
        simpa [hj0, hf] using hj

/-- Reading a list by its indices is reading the list. -/
theorem filterMap_range_getElem {α β : Type} (l : List α) (f : α → Option β) :
    (List.range l.length).filterMap (fun i => l[i]?.bind f) = l.filterMap f := by
  have hmap : (List.range l.length).map (fun i => l[i]?) = l.map some := by
    apply List.ext_getElem?
    intro i
    by_cases hi : i < l.length
    · simp [hi]
    · simp [hi]
  calc (List.range l.length).filterMap (fun i => l[i]?.bind f)
      = ((List.range l.length).map fun i => l[i]?).filterMap (fun x => x.bind f) := by
        rw [List.filterMap_map]
        rfl
    _ = (l.map some).filterMap (fun x => x.bind f) := by rw [hmap]
    _ = l.filterMap f := by
        rw [List.filterMap_map]
        rfl

/-- One point in time for each call makes the history linearizable. -/
theorem linearizable : Linearizable spec (T.state 0) T.history := by
  refine ⟨T.order, ?_, ⟨_, T.legal_upTo T.length (Nat.le_refl _)⟩, ?_, ?_, ?_⟩
  · rw [List.Nodup, List.pairwise_map]
    refine List.pairwise_filterMap.mpr ?_
    refine List.Pairwise.imp_of_mem ?_ (List.pairwise_lt_range (n := T.length))
    intro t u ht hu htu e he f hf hc
    rw [List.mem_range] at ht hu
    have := T.once t u ht hu e f he hf hc
    omega
  · intro e he
    obtain ⟨t, ht, hte⟩ := List.mem_filterMap.mp he
    obtain ⟨i, hi, hie⟩ := T.invoked t (List.mem_range.mp ht) e hte
    exact List.mem_filterMap.mpr ⟨i, List.mem_range.mpr hi, hie⟩
  · intro c res hr
    obtain ⟨i, hi, hie⟩ := List.mem_filterMap.mp hr
    obtain ⟨t, ht, op, hte⟩ := T.completed i (List.mem_range.mp hi) c res hie
    exact ⟨op, List.mem_filterMap.mpr ⟨t, List.mem_range.mpr ht, hte⟩⟩
  · refine List.pairwise_filterMap.mpr ?_
    refine List.Pairwise.imp_of_mem ?_ (List.pairwise_lt_range (n := T.length))
    rintro t u ht hu htu e he f hf ⟨i, j, res, op, hij, hi, hj⟩
    rw [List.mem_range] at ht hu
    obtain ⟨x, y, hxy, hy, hx, hyj⟩ := filterMap_range_get T.event T.length hij hi hj
    -- the later call cannot have returned before the earlier one was invoked
    have h1 := T.beforeRespond u hu f hf x (by omega) res hx
    have h2 := T.afterInvoke t ht e he y hy op hyj
    omega

end Timeline
end Librarian.Foundation
