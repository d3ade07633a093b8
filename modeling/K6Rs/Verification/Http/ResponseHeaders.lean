import K6Rs.Model.ResponseHeaders

/-! # Headers of a response

No value of a header is lost: the one pass over the headers groups them by their names. -/

namespace K6Rs

/-- The values of the headers with this name, in the order of their arrival. -/
def arrivedValues (headers : List (Str × Str)) (name : Str) : List Str :=
  (headers.filter fun h => h.1 == name).map Prod.snd

/-- The property of a name with these values. -/
def groupedProperty : List Str → Option HeaderProperty
  | [] => none
  | [v] => some (.text v)
  | vs => some (.array (vs.map some))

theorem setAt_length (arr : JsArray) (v : Str) : arr.setAt arr.length v = arr ++ [some v] := by
  simp [JsArray.setAt]

/-- The duplicates go behind what the array holds. -/
theorem foldl_setAt (dups : List Str) (arr : JsArray) (i : ℕ) (h : arr.length = i + 2) :
    (dups.zipIdx i).foldl (fun arr (dv, idx) => JsArray.setAt arr (idx + 2) dv) arr =
    arr ++ dups.map some := by
  induction dups generalizing arr i with
  | nil => simp
  | cons dv dups ih =>
      have hset : arr.setAt (i + 2) dv = arr ++ [some dv] := h ▸ setAt_length arr dv
      rw [List.zipIdx_cons, List.foldl_cons]
      simp only [hset]
      rw [ih _ _ (by simp [h]), List.append_assoc]
      rfl

theorem duplicatesArray_eq (v firstDup : Str) (dups : List Str) :
    duplicatesArray v firstDup dups = (v :: firstDup :: dups).map some :=
  foldl_setAt dups [some v, some firstDup] 0 rfl

variable {front rest : List (Str × Str)} {name k v : Str}

theorem arrivedValues_append : arrivedValues (front ++ rest) name =
    arrivedValues front name ++ arrivedValues rest name := by
  simp [arrivedValues]

theorem arrivedValues_eq_nil_iff : arrivedValues front name = [] ↔ name ∉ front.map Prod.fst := by
  simp only [arrivedValues, List.map_eq_nil_iff, List.filter_eq_nil_iff, beq_iff_eq, List.mem_map,
    not_exists, not_and]

/-- A header whose name did not come before gets all the values of its name. -/
theorem emitHeader_of_new (obj : KeyMap Str HeaderProperty) (hnew : k ∉ front.map Prod.fst) :
    ∃ property, groupedProperty (arrivedValues (front ++ (k, v) :: rest) k) = some property ∧
      emitHeader (front ++ (k, v) :: rest) obj front.length k v = obj.upsert k fun _ =>
      property := by
  have hany : (front.any fun p => p.1 == k) = false := by
    rw [List.any_eq_false]
    intro p hp heq
    exact hnew (List.mem_map.mpr ⟨p, hp, beq_iff_eq.mp heq⟩)
  have hvalues : arrivedValues (front ++ (k, v) :: rest) k = v :: arrivedValues rest k := by
    rw [arrivedValues_append, arrivedValues_eq_nil_iff.mpr hnew, List.nil_append]
    simp [arrivedValues]
  have hdrop : (front ++ (k, v) :: rest).drop (front.length + 1) = rest := by
    rw [List.drop_length_add_append]
    rfl
  rw [hvalues, emitHeader, List.take_left', hany, hdrop]
  · simp only [Bool.false_eq_true, if_false]
    rw [arrivedValues]
    cases hdups : rest.filter fun n => n.1 == k with
    | nil => exact ⟨_, rfl, rfl⟩
    | cons dup dups =>
        obtain ⟨_, firstDup⟩ := dup
        refine ⟨_, rfl, ?_⟩
        simp only [List.map_cons, duplicatesArray_eq]
  · rfl

theorem emitHeader_of_seen (obj : KeyMap Str HeaderProperty) (hseen : k ∈ front.map Prod.fst) :
    emitHeader (front ++ (k, v) :: rest) obj front.length k v = obj := by
  have hany : (front.any fun p => p.1 == k) = true := by
    obtain ⟨p, hp, rfl⟩ := List.mem_map.mp hseen
    exact List.any_eq_true.mpr ⟨p, hp, beq_self_eq_true _⟩
  rw [emitHeader, List.take_left', hany, if_pos rfl]
  rfl

/-- Behind the front, the object has the names of the front, each with all its values. -/
def Emitted (headers front : List (Str × Str)) (obj : KeyMap Str HeaderProperty) : Prop :=
  ∀ name, obj.find? name =
    if name ∈ front.map Prod.fst then groupedProperty (arrivedValues headers name) else none

/-- A pass of the loop. -/
theorem Emitted.step {obj : KeyMap Str HeaderProperty}
    (h : Emitted (front ++ (k, v) :: rest) front obj) :
    Emitted (front ++ (k, v) :: rest) (front ++ [(k, v)])
      (emitHeader (front ++ (k, v) :: rest) obj front.length k v) := by
  intro name
  have hmem : name ∈ (front ++ [(k, v)]).map Prod.fst ↔ name ∈ front.map Prod.fst ∨ name = k := by
    rw [List.map_append, List.mem_append]
    exact or_congr_right List.mem_singleton
  rw [if_congr hmem rfl rfl]
  by_cases hseen : k ∈ front.map Prod.fst
  · have hold : name ∈ front.map Prod.fst ∨ name = k ↔ name ∈ front.map Prod.fst :=
      or_iff_left_of_imp fun hname => hname ▸ hseen
    rw [emitHeader_of_seen obj hseen, h name, if_congr hold rfl rfl]
  · obtain ⟨property, hproperty, hemit⟩ := @emitHeader_of_new front rest k v obj hseen
    rw [hemit]
    by_cases hname : name = k
    · subst hname
      rw [KeyMap.find?_upsert_self, if_pos (.inr rfl), hproperty]
    · rw [KeyMap.find?_upsert_of_ne _ _ hname, h name, if_congr (or_iff_left hname) rfl rfl]

/-- The loop over what is behind the front. -/
theorem Emitted.foldl {obj : KeyMap Str HeaderProperty} (h : Emitted (front ++ rest) front obj) :
    Emitted (front ++ rest) (front ++ rest)
      ((rest.zipIdx front.length).foldl
        (fun obj (h, i) => emitHeader (front ++ rest) obj i h.1 h.2) obj) := by
  induction rest generalizing front obj with
  | nil => simpa using h
  | cons header rest ih =>
      obtain ⟨k, v⟩ := header
      have hcons : front ++ (k, v) :: rest = (front ++ [(k, v)]) ++ rest := by simp
      have hlen : front.length + 1 = (front ++ [(k, v)]).length := by simp
      have hstep : Emitted ((front ++ [(k, v)]) ++ rest) (front ++ [(k, v)])
          (emitHeader ((front ++ [(k, v)]) ++ rest) obj front.length k v) := by
        rw [← hcons]
        exact h.step
      rw [List.zipIdx_cons, List.foldl_cons, hlen, hcons]
      exact ih hstep

/-- Each name has its value, or the array of all its values in the order of their arrival, and there
is no other name. -/
theorem find?_buildHeadersObj (headers : List (Str × Str)) (name : Str) :
    (buildHeadersObj headers).find? name = groupedProperty (arrivedValues headers name) := by
  have hstart : Emitted ([] ++ headers) [] ∅ := fun _ => rfl
  have hend := hstart.foldl name
  rw [List.nil_append] at hend
  rw [buildHeadersObj]
  refine hend.trans ?_
  split
  · rfl
  · rename_i hnone
    rw [arrivedValues_eq_nil_iff.mpr hnone]
    rfl

end K6Rs
