import Mathlib.Data.List.Infix

/-!
Where a pattern can occur in a text that is put together from pieces: a separator that
the pattern lacks keeps an occurrence inside one piece, and a separator that both have
exactly once fixes its place.
-/

set_option autoImplicit false

namespace Lines

variable {α : Type} {sep : α} {p a b : List α}

/-- An occurrence across a boundary would contain the separator next to it. -/
theorem infix_append_of_last (hp : sep ∉ p) (ha : a.getLast? = some sep) :
    p <:+: a ++ b ↔ p <:+: a ∨ p <:+: b := by
  rw [List.infix_append_iff]
  refine ⟨?_,fun h => h.elim Or.inl (fun hb => Or.inr (Or.inl hb))⟩
  intro h
  rcases h with h | h | ⟨u,v,rfl,hu,hv⟩
  · exact Or.inl h
  · exact Or.inr h
  · rcases List.eq_nil_or_concat u with rfl | ⟨t,c,rfl⟩
    · exact Or.inr hv.isInfix
    · obtain ⟨r,rfl⟩ := hu
      have hc : c = sep := by simpa using ha
      exact absurd (by simp [hc]) hp

theorem infix_append_of_first (hp : sep ∉ p) (hb : b.head? = some sep) :
    p <:+: a ++ b ↔ p <:+: a ∨ p <:+: b := by
  have hr : sep ∉ p.reverse := by simpa using hp
  have hl : b.reverse.getLast? = some sep := by simpa using hb
  rw [← List.reverse_infix,List.reverse_append,infix_append_of_last hr hl,
    List.reverse_infix,List.reverse_infix,or_comm]

theorem infix_flatten {lines : List (List α)} (hp : sep ∉ p) (hne : p ≠ [])
    (hl : ∀ l ∈ lines, l.getLast? = some sep) :
    p <:+: lines.flatten ↔ ∃ l ∈ lines, p <:+: l := by
  induction lines with
  | nil => simp [hne]
  | cons l lines ih =>
    have hs := ih (fun k hk => hl k (List.mem_cons_of_mem l hk))
    rw [List.flatten_cons,infix_append_of_last hp (hl l List.mem_cons_self),hs]
    simp

theorem infix_mark {m : α} {x y u v : List α} (hu : m ∉ u) (hv : m ∉ v) :
    x ++ m :: y <:+: u ++ m :: v ↔ x <:+ u ∧ y <+: v := by
  constructor
  · intro h
    obtain ⟨s,t,h⟩ := h
    have he : u ++ m :: v = (s ++ x) ++ m :: (y ++ t) := by simp [← h]
    obtain ⟨hx,_,hy⟩ := (List.append_cons_inj_of_notMem hu hv).mp he
    exact ⟨⟨s,hx.symm⟩,⟨t,hy.symm⟩⟩
  · intro h
    obtain ⟨⟨s,rfl⟩,⟨t,rfl⟩⟩ := h
    exact ⟨s,t,by simp⟩

theorem filter_leftpad [DecidableEq α] {w : Nat} {c : α} {d : List α} (hd : c ∉ d) :
    (List.leftpad w c d).filter (· != c) = d := by
  have he : d.filter (· != c) = d := by
    rw [List.filter_eq_self]
    intro a ha
    have hne : a ≠ c := fun h => hd (h ▸ ha)
    simpa using hne
  simp [List.leftpad,he]

/-- A padded field is not the start of a longer one, and padding loses nothing. -/
theorem leftpad_prefix_iff [DecidableEq α] {w : Nat} {c : α} {d e : List α} (hd : c ∉ d)
    (he : c ∉ e) (hw : d.length < w) : List.leftpad w c d <+: List.leftpad w c e ↔ d = e := by
  constructor
  · intro h
    have hew : e.length < w := by
      by_contra hn
      have hc : c ∈ List.leftpad w c d := by
        rw [List.leftpad,List.mem_append,List.mem_replicate]
        exact Or.inl ⟨by omega,rfl⟩
      have hp : List.leftpad w c e = e := by
        rw [List.leftpad,Nat.sub_eq_zero_of_le (by omega)]
        rfl
      rw [hp] at h
      exact he (h.subset hc)
    have hl : (List.leftpad w c d).length = (List.leftpad w c e).length := by
      rw [List.length_leftpad,List.length_leftpad]
      omega
    calc
      d = (List.leftpad w c d).filter (· != c) := (filter_leftpad hd).symm
      _ = (List.leftpad w c e).filter (· != c) := by rw [h.eq_of_length hl]
      _ = e := filter_leftpad he
  · intro h
    rw [h]

end Lines
