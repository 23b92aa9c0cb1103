import Librarian.Library

/-! # The library only grows

Every call leaves all versions and all records as they are and may add one of each at the
end. The versions of a document are numbered by their places, and every recorded request
names one of them.
-/
namespace Librarian.Library

/-- Nothing of `L` is lost or changed in `L'`. -/
structure Extends (L L' : Library) : Prop where
  documents : ∀ d, L.documents d <+: L'.documents d
  recorded : ∀ r key, L.recorded r = some key → L'.recorded r = some key

/-- Versions are numbered by their places and records name versions. -/
structure Sound (L : Library) : Prop where
  numbered : ∀ (d : Uuid) (k : ℕ) (e : DocumentVersion), (L.documents d)[k]? = some e →
    e.documentId = d ∧ e.version = k + 1
  recorded : ∀ r d v, L.recorded r = some (d, v) → ∃ e, L.find d v = some e

variable {L L' : Library}

theorem Extends.refl (L : Library) : L.Extends L := ⟨fun _ => List.prefix_refl _, fun _ _ h => h⟩

theorem Extends.trans {L L' L'' : Library} (h : L.Extends L') (h' : L'.Extends L'') :
    L.Extends L'' :=
  ⟨fun d => (h.documents d).trans (h'.documents d), fun r k hr => h'.recorded r k (h.recorded r k hr)⟩

theorem Extends.find (h : L.Extends L') {d : Uuid} {v : ℤ} {e : DocumentVersion}
    (he : L.find d v = some e) : L'.find d v = some e := by
  unfold Library.find at *
  split at he
  · rename_i hv
    rw [if_pos hv]
    obtain ⟨rest, hrest⟩ := h.documents d
    rw [← hrest, List.getElem?_append_left (List.getElem?_eq_some_iff.mp he).1]
    exact he
  · cases he

theorem find_eq_some {d : Uuid} {v : ℤ} {e : DocumentVersion} :
    L.find d v = some e ↔ ∃ k : ℕ, v = k + 1 ∧ (L.documents d)[k]? = some e := by
  unfold find
  constructor
  · intro h
    split at h
    · exact ⟨(v - 1).toNat, by omega, h⟩
    · cases h
  · rintro ⟨k, rfl, h⟩
    rw [if_pos (by omega)]
    simpa using h

section Append
variable {r : Uuid} {e : DocumentVersion}

theorem extends_append (hr : L.recorded r = none) : L.Extends (L.append r e) := by
  constructor
  · intro d
    by_cases hd : d = e.documentId
    · subst hd
      simp [append]
    · simp [append, hd]
  · intro r' key hr'
    have hne : r' ≠ r := by
      rintro rfl
      rw [hr] at hr'
      cases hr'
    simpa [append, hne] using hr'

theorem documents_append (d : Uuid) : (L.append r e).documents d =
    if d = e.documentId then L.documents d ++ [e] else L.documents d := by
  by_cases hd : d = e.documentId
  · subst hd
    simp [append]
  · simp [append, hd]

theorem find_append (hv : e.version = L.nextVersion e.documentId) :
    (L.append r e).find e.documentId e.version = some e := by
  apply find_eq_some.mpr
  refine ⟨(L.documents e.documentId).length, hv, ?_⟩
  simp [documents_append]

theorem Sound.append (h : L.Sound) (hr : L.recorded r = none)
    (hv : e.version = L.nextVersion e.documentId) : (L.append r e).Sound := by
  constructor
  · intro d k x hx
    rw [documents_append] at hx
    split at hx
    · rename_i hd
      by_cases hk : k < (L.documents d).length
      · rw [List.getElem?_append_left hk] at hx
        exact h.numbered d k x hx
      · rw [List.getElem?_append_right (by omega)] at hx
        obtain ⟨hlt, rfl⟩ := List.getElem?_eq_some_iff.mp hx
        rw [List.length_singleton] at hlt
        refine ⟨by simp [hd], ?_⟩
        simp only [List.getElem_singleton, hv, nextVersion, ← hd]
        omega
    · exact h.numbered d k x hx
  · intro r' d v hr'
    by_cases hrr : r' = r
    · subst hrr
      simp only [Library.append, Function.update_self, Option.some.injEq, Prod.mk.injEq] at hr'
      obtain ⟨rfl, rfl⟩ := hr'
      exact ⟨e, find_append hv⟩
    · have hold : L.recorded r' = some (d, v) := by simpa [Library.append, hrr] using hr'
      obtain ⟨x, hx⟩ := h.recorded r' d v hold
      exact ⟨x, (extends_append hr).find hx⟩

end Append

theorem sound_empty : empty.Sound := by
  constructor
  · intro d k e h
    simp [empty] at h
  · intro r d v h
    cases h

section Steps
variable [Sha256] {requestId : Uuid} {document : PutDocument} {res : Except DocumentError PutOutcome}
  {op : RepositoryCall} {result : RepositoryResult}

/-- A put changes nothing, or it appends the next version of a document under a new record. -/
theorem Put.unchanged_or_append (h : L.Put requestId document res L') :
    L' = L ∨ ∃ d t, L.recorded requestId = none ∧ res = .ok ⟨d, L.nextVersion d, false⟩ ∧
      L' = L.append requestId (entry d (L.nextVersion d) document t) := by
  cases h with
  | @created d t h ht hr hd hfresh =>
    have hone : L.nextVersion d = 1 := by simp [nextVersion, hfresh]
    exact .inr ⟨d, t, hr, by rw [hone], by rw [hone]⟩
  | @appended d t h ht hr hd hknown => exact .inr ⟨d, t, hr, rfl, rfl⟩
  | emptyContent => exact .inl rfl
  | emptyContentType => exact .inl rfl
  | recorded => exact .inl rfl
  | unknownDocument => exact .inl rfl

theorem StepOrFail.unchanged_or_append (h : L.StepOrFail op result L') :
    L' = L ∨ ∃ r document d t, L.recorded r = none ∧
      L' = L.append r (entry d (L.nextVersion d) document t) := by
  cases h with
  | step h =>
    cases h with
    | put h =>
      rcases h.unchanged_or_append with hsame | ⟨d, t, hr, -, happend⟩
      · exact .inl hsame
      · exact .inr ⟨_, _, d, t, hr, happend⟩
    | get => exact .inl rfl
  | fail => exact .inl rfl

theorem StepOrFail.extends (h : L.StepOrFail op result L') : L.Extends L' := by
  rcases h.unchanged_or_append with rfl | ⟨r, document, d, t, hr, rfl⟩
  · exact .refl _
  · exact extends_append hr

theorem StepOrFail.sound (h : L.StepOrFail op result L') (hs : L.Sound) : L'.Sound := by
  rcases h.unchanged_or_append with rfl | ⟨r, document, d, t, hr, rfl⟩
  · exact hs
  · exact hs.append hr rfl

end Steps

section Reads
variable {d : Uuid} {v : Option ℤ} {e : DocumentVersion}

/-- What a read returns is the version it names. -/
theorem Sound.find_of_get (h : L.Sound) (hg : L.get d v = .ok e) :
    e.documentId = d ∧ L.find d e.version = some e ∧ ∀ n, v = some n → e.version = n := by
  have hplace : ∀ k : ℕ, (L.documents d)[k]? = some e →
      e.documentId = d ∧ L.find d e.version = some e ∧ e.version = k + 1 := by
    intro k hk
    obtain ⟨hd, hv⟩ := h.numbered d k e hk
    exact ⟨hd, find_eq_some.mpr ⟨k, hv, hk⟩, hv⟩
  cases v with
  | some n =>
    cases hf : L.find d n with
    | none => simp [get, hf] at hg
    | some x =>
      obtain rfl : x = e := by simpa [get, hf] using hg
      obtain ⟨k, rfl, hk⟩ := find_eq_some.mp hf
      obtain ⟨hd, hfind, hv⟩ := hplace k hk
      exact ⟨hd, hfind, fun n hn => hv.trans (Option.some.inj hn)⟩
  | none =>
    cases hl : (L.documents d).getLast? with
    | none => simp [get, hl] at hg
    | some x =>
      obtain rfl : x = e := by simpa [get, hl] using hg
      rw [List.getLast?_eq_getElem?] at hl
      obtain ⟨hd, hfind, -⟩ := hplace _ hl
      exact ⟨hd, hfind, fun n hn => by cases hn⟩

theorem get_of_find {n : ℤ} (h : L.find d n = some e) : L.get d (some n) = .ok e := by
  simp [get, h]

/-- A document with a version is found, and its latest version is no older. -/
theorem Sound.get_latest (h : L.Sound) {n : ℤ} (hf : L.find d n = some e) :
    ∃ e', L.get d none = .ok e' ∧ n ≤ e'.version := by
  obtain ⟨k, rfl, hk⟩ := find_eq_some.mp hf
  obtain ⟨hlt, -⟩ := List.getElem?_eq_some_iff.mp hk
  have hget : (L.documents d)[(L.documents d).length - 1]? =
      some (L.documents d)[(L.documents d).length - 1] := List.getElem?_eq_getElem _
  have hv := (h.numbered d _ _ hget).2
  refine ⟨(L.documents d)[(L.documents d).length - 1], ?_, by omega⟩
  rw [get, List.getLast?_eq_getElem?, hget]
  rfl

end Reads

section Answers
variable [Sha256] {r : Uuid} {document : PutDocument}

/-- A put of a new document with text is never refused. -/
theorem Put.of_new {res : Except DocumentError PutOutcome} (h : L.Put r document res L')
    (hnew : document.documentId = none) (hcontent : isBlank document.content = false)
    (htype : isBlank document.contentType = false) : ∃ outcome, res = .ok outcome := by
  cases h with
  | emptyContent hblank => simp [hcontent] at hblank
  | emptyContentType _ hblank => simp [htype] at hblank
  | unknownDocument _ _ _ hd => simp [hnew] at hd
  | recorded => exact ⟨_, rfl⟩
  | created => exact ⟨_, rfl⟩
  | appended => exact ⟨_, rfl⟩

omit [Sha256] in
/-- What can be read goes on to be readable. -/
theorem Extends.get (h : L.Extends L') {d : Uuid} {v : Option ℤ} (hg : ∃ e, L.get d v = .ok e) :
    ∃ e, L'.get d v = .ok e := by
  rcases hg with ⟨e, he⟩
  cases v with
  | some v =>
    rw [Library.get] at he
    cases hf : L.find d v with
    | none => simp [hf] at he
    | some e => exact ⟨e, get_of_find (h.find hf)⟩
  | none =>
    have hne : L'.documents d ≠ [] := by
      intro hnil
      have hprefix := h.documents d
      rw [hnil, List.prefix_nil] at hprefix
      simp [Library.get, hprefix] at he
    exact ⟨(L'.documents d).getLast hne, by simp [Library.get, List.getLast?_eq_getLast_of_ne_nil hne]⟩

end Answers
end Librarian.Library
