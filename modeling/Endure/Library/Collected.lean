import Mathlib

/-!
# Checks that collect their errors

Computations that go on after a failure and report every error found, as the validation of a
record field by field does.
-/

namespace Library.Collected

variable {ε α β : Type*}

/-- Both computations are made and their errors kept together. -/
def both (first : Except (List ε) α) (second : Except (List ε) β) : Except (List ε) (α × β) :=
  match first, second with
  | .ok a, .ok b => .ok (a, b)
  | .ok _, .error errors => .error errors
  | .error errors, .ok _ => .error errors
  | .error errors, .error others => .error (errors ++ others)

@[simp] theorem both_ok (a : α) (b : β) :
    both (.ok a) (.ok b) = (.ok (a, b) : Except (List ε) (α × β)) := rfl

theorem both_eq_ok {first : Except (List ε) α} {second : Except (List ε) β} {a : α} {b : β} :
    both first second = .ok (a, b) ↔ first = .ok a ∧ second = .ok b := by
  cases first <;> cases second <;> simp [both]

/-- Every item is checked. -/
def each (check : α → Except (List ε) β) : List α → Except (List ε) (List β)
  | [] => .ok []
  | item :: rest => (both (check item) (each check rest)).map fun found => found.1 :: found.2

/-- A check of every item succeeds when all do. -/
theorem each_eq_ok {check : α → Except (List ε) β} {items : List α} {results : List β} :
    each check items = .ok results ↔
      List.Forall₂ (fun item result => check item = .ok result) items results := by
  induction items generalizing results with
  | nil =>
    rw [each, List.forall₂_nil_left_iff]
    constructor
    · intro same
      cases same
      rfl
    · rintro rfl
      rfl
  | cons item rest ih =>
    rw [each]
    constructor
    · intro done
      cases checked : both (check item) (each check rest) with
      | error errors =>
        rw [checked] at done
        cases done
      | ok found =>
        rw [checked] at done
        cases done
        obtain ⟨head, tail⟩ := both_eq_ok.mp checked
        exact List.Forall₂.cons head (ih.mp tail)
    · intro related
      cases related with
      | cons head tail =>
        rw [both_eq_ok.mpr ⟨head, ih.mpr tail⟩]
        rfl

theorem exists_of_each_eq_ok {check : α → Except (List ε) β} {items : List α} {results : List β}
    (done : each check items = .ok results) {result : β} (member : result ∈ results) :
    ∃ item ∈ items, check item = .ok result := by
  have related := each_eq_ok.mp done
  clear done
  induction related with
  | nil => cases member
  | cons head _ ih =>
    rcases List.mem_cons.mp member with rfl | later
    · exact ⟨_, List.mem_cons_self .., head⟩
    · obtain ⟨item, listed, checked⟩ := ih later
      exact ⟨item, List.mem_cons_of_mem _ listed, checked⟩

/-- Items that are written one by one are read one by one. -/
theorem each_map {check : β → Except (List ε) α} {write : α → β} {items : List α}
    (reads : ∀ item ∈ items, check (write item) = .ok item) :
    each check (items.map write) = .ok items := by
  rw [each_eq_ok, List.forall₂_map_left_iff, List.forall₂_same]
  exact reads

end Library.Collected
