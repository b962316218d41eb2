set_option autoImplicit false

namespace TestRun

structure Table (κ α : Type) where
  rows : List (κ × α)

namespace Table

variable {κ α : Type}

def empty : Table κ α := ⟨[]⟩

instance : Inhabited (Table κ α) := ⟨empty⟩

variable [DecidableEq κ]

def get? (t : Table κ α) (key : κ) : Option α := t.rows.lookup key

def set (t : Table κ α) (key : κ) (value : α) : Table κ α :=
  if (t.get? key).isSome then ⟨t.rows.map fun r => if r.1 == key then (key, value) else r⟩
  else ⟨t.rows ++ [(key, value)]⟩

def setAll (t : Table κ α) (rows : List (κ × α)) : Table κ α :=
  rows.foldl (fun t r => t.set r.1 r.2) t

def ofList (rows : List (κ × α)) : Table κ α := empty.setAll rows

@[simp] theorem get?_empty (key : κ) : (empty : Table κ α).get? key = none := rfl

theorem lookup_replace (rows : List (κ × α)) (key other : κ) (value : α) :
    (rows.map fun r => if r.1 == key then (key, value) else r).lookup other =
      if other = key then (rows.lookup key).map fun _ => value else rows.lookup other := by
  induction rows with
  | nil => simp
  | cons r rest ih =>
    obtain ⟨k, v⟩ := r
    by_cases hk : k = key
    · subst hk
      by_cases ho : other = k
      · subst ho
        simp
      · have : (other == k) = false := by simpa using ho
        simp only [List.map_cons, beq_self_eq_true, if_true, List.lookup_cons, this, ih, if_neg ho]
    · have hkb : (k == key) = false := by simpa using hk
      by_cases ho : other = key
      · subst ho
        have hok : (other == k) = false := by simpa using fun e => hk e.symm
        simp only [List.map_cons, hkb, Bool.false_eq_true, if_false, List.lookup_cons, hok, ih, if_true]
      · simp only [List.map_cons, hkb, Bool.false_eq_true, if_false, List.lookup_cons, if_neg ho]
        cases h : other == k
        · simp only [ih, if_neg ho]
        · rfl

theorem lookup_concat (rows : List (κ × α)) (key other : κ) (value : α) :
    (rows ++ [(key, value)]).lookup other =
      (rows.lookup other).or (if other = key then some value else none) := by
  induction rows with
  | nil =>
    by_cases h : other = key
    · simp [List.lookup_nil, h]
    · have : (other == key) = false := by simpa using h
      simp [List.lookup_cons, List.lookup_nil, h, this]
  | cons r rest ih =>
    obtain ⟨k, v⟩ := r
    simp only [List.cons_append, List.lookup_cons]
    cases other == k <;> simp [ih]

theorem get?_set (t : Table κ α) (key other : κ) (value : α) :
    (t.set key value).get? other = if other = key then some value else t.get? other := by
  unfold set
  split
  next h =>
    obtain ⟨v, hv⟩ := Option.isSome_iff_exists.1 h
    simp only [get?, lookup_replace] at hv ⊢
    rw [hv]
    rfl
  next h =>
    have hn : t.rows.lookup key = none := Option.not_isSome_iff_eq_none.1 h
    simp only [get?, lookup_concat]
    by_cases ho : other = key
    · subst ho
      simp [hn]
    · simp [ho]

end Table

end TestRun
