/-!
# LineExchange.Bench.Named

Values by name. A name has one value at a time: a new one takes the place of the old.
-/

namespace LineExchange

/-- Values by name. -/
structure Named (α : Type) where
  entries : List (String × α) := []

namespace Named

variable {α : Type}

instance : Inhabited (Named α) := ⟨{}⟩

def get? (n : Named α) (name : String) : Option α := n.entries.lookup name

def contains (n : Named α) (name : String) : Bool := (n.get? name).isSome

def erase (n : Named α) (name : String) : Named α := ⟨n.entries.filter (·.1 != name)⟩

def insert (n : Named α) (name : String) (a : α) : Named α := ⟨(name, a) :: (n.erase name).entries⟩

def values (n : Named α) : List α := n.entries.map (·.2)

theorem lookup_filter_ne (l : List (String × α)) (name other : String) :
    (l.filter (·.1 != name)).lookup other = if other = name then none else l.lookup other := by
  induction l with
  | nil => simp
  | cons e l ih =>
    obtain ⟨k, a⟩ := e
    by_cases hk : k = name
    · rw [List.filter_cons_of_neg (by simp [hk]), ih, List.lookup_cons]
      by_cases ho : other = name
      · simp [ho]
      · have hb : (other == k) = false := by simp [hk, ho]
        simp [ho, hb]
    · rw [List.filter_cons_of_pos (by simp [hk]), List.lookup_cons, List.lookup_cons, ih]
      by_cases ho : other = name
      · have hb : (name == k) = false := by simpa using Ne.symm hk
        simp [ho, hb]
      · simp [ho]

theorem get?_erase (n : Named α) (name other : String) :
    (n.erase name).get? other = if other = name then none else n.get? other :=
  lookup_filter_ne ..

theorem get?_insert (n : Named α) (name other : String) (a : α) :
    (n.insert name a).get? other = if other = name then some a else n.get? other := by
  by_cases h : other = name
  · simp [insert, get?, h]
  · have hb : (other == name) = false := by simpa using h
    have he := n.get?_erase name other
    simp only [get?] at he
    simp [insert, get?, List.lookup_cons, hb, he, h]

end Named
end LineExchange
