import TextIndex.Packed.Cursor
import TextIndex.Proofs.Packed.Elements

/-!
# A vector read from both ends

A vector is read by any number of readers at a time: a reader takes an element from the front or from
the back, and a copy of a reader goes on from where the reader stood. However the calls follow on one
another, each reader delivers every element once (`both_ends_deliver_once`).

A reader is at an interval of positions. What it has delivered from the front is the list before that
interval, and what it has delivered from the back is the list behind it, reversed; one call keeps both
(`Reader.At.take`), and an answer without an element means that the interval is empty and remains so.
-/

set_option autoImplicit false

namespace TextIndex

namespace Cursor

variable {c : Cursor}

/-! ## One call -/

/-- The two ends. -/
inductive Side where
  | front
  | back
deriving DecidableEq, Repr

/-- Takes the unread element at one end. -/
def take (c : Cursor) : Side → Option UInt64 × Cursor
  | .front => c.next
  | .back => c.nextBack

/-- From the front the first unread element is taken, and the front moves on. -/
theorem next_of_lt (h : c.front < c.back) :
    c.next = (some (c.vector.element c.front), { c with front := c.front + 1, front_le := h }) :=
  dif_pos h

/-- From the back the last unread element is taken, and the back moves on. -/
theorem nextBack_of_lt (h : c.front < c.back) :
    c.nextBack = (some (c.vector.element (c.back - 1)),
      { c with
        back := c.back - 1
        front_le := Nat.le_sub_one_of_lt h
        back_le := Nat.le_trans (Nat.sub_le _ _) c.back_le }) :=
  dif_pos h

/-- Where the ends meet, neither has an element, and neither moves. -/
theorem take_of_eq (h : c.front = c.back) (side : Side) : c.take side = (none, c) := by
  have hmet : ¬ c.front < c.back := by omega
  cases side with
  | front => exact dif_neg hmet
  | back => exact dif_neg hmet

/-- Before they meet, both have one. -/
theorem take_of_lt (h : c.front < c.back) (side : Side) : ∃ x, (c.take side).1 = some x := by
  cases side with
  | front => exact ⟨_, congrArg Prod.fst (next_of_lt h)⟩
  | back => exact ⟨_, congrArg Prod.fst (nextBack_of_lt h)⟩

/-! ## The unread elements -/

/-- The front stays within the vector. -/
theorem front_le_length (c : Cursor) : c.front ≤ c.vector.toList.length := by
  rw [PackedVector.length_toList]
  exact c.front_le.trans c.back_le

/-- The element at a position of the interval, as one of the list. -/
theorem element_of_lt {i : Nat} (h : i < c.back) :
    c.vector.toList[i]? = some (c.vector.element i) := by
  rw [PackedVector.getElem?_toList]
  exact if_pos (h.trans_le c.back_le)

/-- The unread elements are the middle of the list. -/
theorem rest_eq (c : Cursor) : c.rest = (c.vector.toList.drop c.front).take c.remaining := by
  have hlength : c.remaining ≤ c.vector.length - c.front := Nat.sub_le_sub_right c.back_le _
  apply List.ext_getElem
  · simp [rest, hlength]
  · intro i hi hi'
    simp [rest, PackedVector.toList]

/-- Every unread element, taken from the front until there is none. -/
def collect (c : Cursor) : List UInt64 :=
  match _h : c.next with
  | (some x, c') => x :: c'.collect
  | (none, _) => []
termination_by c.remaining
decreasing_by
  unfold next at _h
  split at _h
  · cases _h
    simp only [remaining]
    omega
  · cases _h

/-- What is collected is what was unread. -/
theorem collect_eq_rest (c : Cursor) : c.collect = c.rest := by
  fun_induction collect c with
  | case1 c x c' h ih =>
    have hlt : c.front < c.back := by
      by_contra hmet
      rw [next, dif_neg hmet] at h
      cases h
    rw [next_of_lt hlt] at h
    cases h
    have hremaining : c.remaining = (c.back - (c.front + 1)) + 1 := by
      unfold remaining
      omega
    rw [ih, rest, rest, hremaining, List.range'_succ, List.map_cons]
    rfl
  | case2 c c' h =>
    have hmet : ¬ c.front < c.back := by
      intro hlt
      rw [next_of_lt hlt] at h
      cases h
    have hremaining : c.remaining = 0 := by
      unfold remaining
      omega
    rw [rest, hremaining]
    rfl

/-- The last unread element is the next one of the reversed list. -/
theorem take_reverse_succ (h : c.front < c.back) :
    c.vector.toList.reverse.take (c.vector.length - (c.back - 1)) =
      c.vector.toList.reverse.take (c.vector.length - c.back) ++
        [c.vector.element (c.back - 1)] := by
  have hle := c.back_le
  have hlength : c.vector.toList.length = c.vector.length := c.vector.length_toList
  have hcount : c.vector.length - (c.back - 1) = c.vector.length - c.back + 1 := by omega
  have hplace : c.vector.toList.length - 1 - (c.vector.length - c.back) = c.back - 1 := by omega
  have helement : c.vector.toList.reverse[c.vector.length - c.back]? =
      some (c.vector.element (c.back - 1)) := by
    rw [List.getElem?_reverse (by omega), hplace]
    exact element_of_lt (by omega)
  rw [hcount, List.take_add_one, helement]
  rfl

end Cursor

/-! ## Readers -/

/-- Where a reader is, and what its calls have returned so far, the first one first. -/
structure Reader where
  cursor : Cursor
  answers : List (Cursor.Side × Option UInt64)

namespace Reader

/-- A reader that nothing has been asked of. -/
def new (v : PackedVector) : Reader := ⟨.all v, []⟩

/-- One call at an end. -/
def take (side : Cursor.Side) (r : Reader) : Reader :=
  let (x, c) := r.cursor.take side
  ⟨c, r.answers ++ [(side, x)]⟩

/-- The elements delivered at an end. -/
def delivered (r : Reader) (side : Cursor.Side) : List UInt64 :=
  r.answers.filterMap fun a => if a.1 = side then a.2 else none

/-- What can be asked of the readers of a vector, which are numbered as they come. -/
inductive Call where
  | take (reader : Nat) (side : Cursor.Side)
  /-- One more reader, at the place of another and with the same past. -/
  | clone (reader : Nat)
deriving DecidableEq, Repr

def Call.apply (readers : List Reader) : Call → List Reader
  | .take k side => readers.modify k (Reader.take side)
  | .clone k => readers ++ readers[k]?.toList

/-- The readers of a vector after some calls. At first there is one. -/
def readers (v : PackedVector) (calls : List Call) : List Reader :=
  calls.foldl Call.apply [new v]

/-! ## One call -/

/-- Taking an element moves the reader's cursor. -/
@[simp] theorem cursor_take (r : Reader) (side : Cursor.Side) :
    (r.take side).cursor = (r.cursor.take side).2 := rfl

/-- Taking an element adds one answer. -/
@[simp] theorem answers_take (r : Reader) (side : Cursor.Side) :
    (r.take side).answers = r.answers ++ [(side, (r.cursor.take side).1)] := rfl

/-- An answer counts for the side that it was asked of. -/
theorem delivered_take (r : Reader) (side side' : Cursor.Side) :
    (r.take side).delivered side' =
      r.delivered side' ++ if side = side' then (r.cursor.take side).1.toList else [] := by
  unfold delivered
  rw [answers_take, List.filterMap_append]
  congr 1
  split <;> cases (r.cursor.take side).1 <;> simp_all

/-- Once an answer has no element, the ends have met, and no later answer has one. -/
structure Ends (r : Reader) : Prop where
  met : ∀ a ∈ r.answers, a.2 = none → r.cursor.front = r.cursor.back
  ended : r.answers.Pairwise fun a b => a.2 = none → b.2 = none

/-- Whatever is taken, the ends stay as they should be. -/
theorem Ends.take {r : Reader} (h : Ends r) (side : Cursor.Side) : Ends (r.take side) := by
  have hsnoc : (∀ a ∈ r.answers, a.2 = none → (r.cursor.take side).1 = none) →
      (r.take side).answers.Pairwise fun a b => a.2 = none → b.2 = none := by
    intro hlast
    rw [answers_take, List.pairwise_append]
    exact ⟨h.ended, List.pairwise_singleton _ _, by simpa using hlast⟩
  by_cases hmet : r.cursor.front = r.cursor.back
  · have htake := Cursor.take_of_eq hmet side
    refine ⟨fun _ _ _ => ?_, hsnoc fun _ _ _ => by rw [htake]⟩
    rw [cursor_take, htake]
    exact hmet
  · have hlt : r.cursor.front < r.cursor.back := Nat.lt_of_le_of_ne r.cursor.front_le hmet
    obtain ⟨x, hx⟩ := Cursor.take_of_lt hlt side
    refine ⟨?_, hsnoc fun a ha hnone => absurd (h.met a ha hnone) hmet⟩
    intro a ha hnone
    rw [answers_take, List.mem_append, List.mem_singleton] at ha
    rcases ha with ha | rfl
    · exact absurd (h.met a ha hnone) hmet
    · rw [hx] at hnone
      cases hnone

/-- What a reader has delivered lies on both sides of the interval where it is. -/
structure At (v : PackedVector) (r : Reader) : Prop where
  vector_eq : r.cursor.vector = v
  front_eq : r.delivered .front = v.toList.take r.cursor.front
  back_eq : r.delivered .back = v.toList.reverse.take (v.length - r.cursor.back)
  ends : Ends r

/-- A new reader stands at the start. -/
theorem At.new (v : PackedVector) : At v (new v) where
  vector_eq := rfl
  front_eq := rfl
  back_eq := by simp [Reader.new, delivered, Cursor.all]
  ends := ⟨by simp [Reader.new], .nil⟩

/-- A call keeps the place of a reader: it delivers the element next to the interval, on its side, or
the interval is empty. -/
theorem At.take {v : PackedVector} {r : Reader} (h : At v r) (side : Cursor.Side) :
    At v (r.take side) := by
  obtain ⟨rfl, hfront, hback, hends⟩ := h
  by_cases hmet : r.cursor.front = r.cursor.back
  · -- nothing is delivered, and the reader stays where it is
    have htake := Cursor.take_of_eq hmet side
    refine ⟨by rw [cursor_take, htake], ?_, ?_, hends.take side⟩
    · rw [delivered_take, cursor_take, htake]
      simpa using hfront
    · rw [delivered_take, cursor_take, htake]
      simpa using hback
  · have hlt : r.cursor.front < r.cursor.back := Nat.lt_of_le_of_ne r.cursor.front_le hmet
    cases side with
    | front =>
      have htake : r.cursor.take .front = _ := Cursor.next_of_lt hlt
      refine ⟨by rw [cursor_take, htake], ?_, ?_, hends.take _⟩
      · rw [delivered_take, cursor_take, htake, hfront, List.take_add_one, Cursor.element_of_lt hlt]
        rfl
      · rw [delivered_take, cursor_take, htake]
        simpa using hback
    | back =>
      have htake : r.cursor.take .back = _ := Cursor.nextBack_of_lt hlt
      refine ⟨by rw [cursor_take, htake], ?_, ?_, hends.take _⟩
      · rw [delivered_take, cursor_take, htake]
        simpa using hfront
      · rw [delivered_take, cursor_take, htake, hback, Cursor.take_reverse_succ hlt]
        rfl

/-! ## Any calls -/

/-- A call on one of several readers. -/
theorem at_of_call {v : PackedVector} {rs : List Reader} (h : ∀ r ∈ rs, At v r) (call : Call) :
    ∀ r ∈ call.apply rs, At v r := by
  intro r hr
  cases call with
  | take k side =>
    rw [Call.apply, List.mem_iff_getElem?] at hr
    obtain ⟨i, hi⟩ := hr
    rw [List.getElem?_modify] at hi
    obtain ⟨r', hr', rfl⟩ := Option.map_eq_some_iff.1 hi
    have hat := h r' (List.mem_of_getElem? hr')
    split
    · exact hat.take side
    · exact hat
  | clone k =>
    rcases List.mem_append.1 hr with hr | hr
    · exact h r hr
    · exact h r (List.mem_of_getElem? (Option.mem_toList.1 hr))

/-- After any calls every reader, clones included, stands where its answers say. -/
theorem at_of_mem_readers {v : PackedVector} (calls : List Call) : ∀ r ∈ readers v calls, At v r := by
  have hrun : ∀ rs : List Reader, (∀ r ∈ rs, At v r) → ∀ r ∈ calls.foldl Call.apply rs, At v r := by
    induction calls with
    | nil => exact fun rs h => h
    | cons call calls ih => exact fun rs h => ih _ (at_of_call h call)
  exact hrun _ fun r hr => List.mem_singleton.1 hr ▸ At.new v

/-! ## What has been delivered -/

/-- What is known of a reader that has delivered some elements of `values` at either end. -/
structure DeliversOnce (values : List UInt64) (r : Reader) : Prop where
  count_le : (r.delivered .front).length + (r.delivered .back).length ≤ values.length
  front_eq : r.delivered .front = values.take (r.delivered .front).length
  back_eq : r.delivered .back = values.reverse.take (r.delivered .back).length
  remaining_eq : r.cursor.remaining =
    values.length - (r.delivered .front).length - (r.delivered .back).length
  /-- What a copy of it collects: the elements in the middle that neither end has delivered. -/
  collect_eq : r.cursor.collect = (values.drop (r.delivered .front).length).take
    (values.length - (r.delivered .front).length - (r.delivered .back).length)
  /-- Together this is every element. -/
  whole : r.delivered .front ++ r.cursor.collect ++ (r.delivered .back).reverse = values
  /-- After an answer without an element there have been no others. -/
  ended : r.answers.Pairwise fun a b => a.2 = none → b.2 = none
  /-- Nor will there be: after it, neither end has an element, and nothing changes any more. -/
  stays : ∀ a ∈ r.answers, a.2 = none → ∀ side, r.cursor.take side = (none, r.cursor)

/-- The front has moved on by the number of elements delivered there. -/
theorem At.length_front {v : PackedVector} {r : Reader} (h : At v r) :
    (r.delivered .front).length = r.cursor.front := by
  have hle := r.cursor.front_le_length
  rw [h.vector_eq] at hle
  rw [h.front_eq, List.length_take, min_eq_left hle]

/-- The back has moved on by the number of elements delivered there. -/
theorem At.length_back {v : PackedVector} {r : Reader} (h : At v r) :
    (r.delivered .back).length = v.length - r.cursor.back := by
  rw [h.back_eq, List.length_take, List.length_reverse, PackedVector.length_toList]
  exact min_eq_left (Nat.sub_le _ _)

/-- What remains is what has not been delivered on either side. -/
theorem At.remaining_eq {v : PackedVector} {r : Reader} (h : At v r) :
    r.cursor.remaining =
      v.toList.length - (r.delivered .front).length - (r.delivered .back).length := by
  have hle := r.cursor.back_le
  rw [h.vector_eq] at hle
  rw [h.length_front, h.length_back, PackedVector.length_toList, Cursor.remaining]
  omega

/-- What is collected are the elements between the two ends. -/
theorem At.collect_eq {v : PackedVector} {r : Reader} (h : At v r) :
    r.cursor.collect = (v.toList.drop r.cursor.front).take r.cursor.remaining := by
  rw [Cursor.collect_eq_rest, Cursor.rest_eq, h.vector_eq]

/-- The list in three parts. -/
theorem At.whole {v : PackedVector} {r : Reader} (h : At v r) :
    r.delivered .front ++ r.cursor.collect ++ (r.delivered .back).reverse = v.toList := by
  have hfront := r.cursor.front_le
  have hback := r.cursor.back_le
  rw [h.vector_eq] at hback
  have hbehind : (r.delivered .back).reverse = v.toList.drop r.cursor.back := by
    rw [h.back_eq, List.take_reverse, List.reverse_reverse, PackedVector.length_toList]
    congr 1
    omega
  have hmiddle : r.cursor.collect ++ v.toList.drop r.cursor.back =
      v.toList.drop r.cursor.front := by
    have hsplit : r.cursor.front + r.cursor.remaining = r.cursor.back := by
      unfold Cursor.remaining
      omega
    rw [h.collect_eq, ← hsplit, ← List.drop_drop]
    exact List.take_append_drop _ _
  rw [List.append_assoc, hbehind, hmiddle, h.front_eq]
  exact List.take_append_drop _ _

/-- Every vector, every order of the calls, and every reader among the copies. -/
theorem both_ends_deliver_once (v : PackedVector) (calls : List Call) :
    ∀ r ∈ readers v calls, DeliversOnce v.toList r := by
  intro r hr
  have hat := at_of_mem_readers calls r hr
  have hcount := congrArg List.length hat.whole
  simp only [List.length_append, List.length_reverse] at hcount
  exact
    { count_le := by omega
      front_eq := by rw [hat.length_front]; exact hat.front_eq
      back_eq := by rw [hat.length_back]; exact hat.back_eq
      remaining_eq := hat.remaining_eq
      collect_eq := by rw [← hat.remaining_eq, hat.length_front]; exact hat.collect_eq
      whole := hat.whole
      ended := hat.ends.ended
      stays := fun a ha hnone => Cursor.take_of_eq (hat.ends.met a ha hnone) }

/-- Three elements, the second across the boundary of two words. A reader takes the first, and a copy
of it goes on from the back, past the end. -/
theorem both_ends_deliver_once_across_words :
    ∃ v : PackedVector, v.toList = [5, 0x10000000000, 7] ∧
      ∃ r ∈ readers v [.take 0 .front, .clone 0, .take 1 .back, .take 0 .back, .take 1 .back,
          .take 1 .back, .take 1 .front],
        r.delivered .front = [5] ∧ r.delivered .back = [7, 0x10000000000] ∧
          (.front, none) ∈ r.answers ∧ DeliversOnce v.toList r := by
  have hmake : PackedVector.ofList? ⟨41, by decide, by decide⟩ [5, 0x10000000000, 7] =
      .ok ⟨_, _, _⟩ := rfl
  have hmade := PackedVector.toList_ofList? (by decide) hmake
  refine ⟨_, hmade.2, (readers _ _)[1], List.getElem_mem _, ?_, ?_, ?_, ?_⟩
  · decide +kernel
  · decide +kernel
  · decide +kernel
  · exact both_ends_deliver_once _ _ _ (List.getElem_mem _)

end Reader

end TextIndex
