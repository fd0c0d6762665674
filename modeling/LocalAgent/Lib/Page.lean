import Mathlib.Data.List.Sort
import Mathlib.Data.List.TakeDrop

/-!
# Keyset pagination

A listing returns a page of at most `limit` items and, if there are more, the key of its last item;
the caller passes that key back to get the next page. The usual implementation fetches one row more
than a page holds (`cut`). `Serves` says that after any number of items have been seen, the listing
returns the page cut from the rest; `Serves.follows` is then that whoever follows the keys to the
end sees every row exactly once, in order.

`filter_after` says what a query of the form `WHERE key > last ORDER BY key` returns.
-/
namespace Paging

variable {α β κ ε : Type}

structure Page (α κ : Type) where
  items : List α
  next : Option κ

/-- The page cut from the rows that are left. -/
def cut (key : α → κ) (limit : Nat) (rows : List α) : Page α κ where
  items := rows.take limit
  next := if limit < rows.length then (rows.take limit).getLast?.map key else none

/-- The cursor of a caller that has seen these items. -/
def cursor (key : α → κ) (seen : List α) : Option κ := seen.getLast?.map key

/-- Following the keys from a cursor until no key is returned yields these items. -/
inductive Follows (listing : Option κ → Except ε (Page α κ)) : Option κ → List α → Prop
  | last {c items} (page : listing c = .ok ⟨items, none⟩) : Follows listing c items
  | more {c c' items rest} (page : listing c = .ok ⟨items, some c'⟩)
      (follows : Follows listing (some c') rest) : Follows listing c (items ++ rest)

/-- Whatever was seen of the rows, the listing returns the page cut from the rest. -/
def Serves (listing : Option κ → Except ε (Page α κ)) (key : α → κ) (limit : Nat) (rows : List α) :
    Prop :=
  ∀ seen rest, rows = seen ++ rest → listing (cursor key seen) = .ok (cut key limit rest)

/-- A next key is returned exactly if rows are left over. -/
theorem cut_next {key : α → κ} {limit : Nat} {rows : List α} (hlimit : 0 < limit) :
    (cut key limit rows).next.isSome = true ↔ limit < rows.length := by
  unfold cut
  split_ifs with hmore
  · have hne : rows.take limit ≠ [] := by
      intro hnil
      have := congrArg List.length hnil
      simp only [List.length_take, List.length_nil] at this
      omega
    simp [hmore, List.getLast?_eq_some_getLast hne]
  · simp [hmore]

variable {listing : Option κ → Except ε (Page α κ)} {key : α → κ} {limit : Nat} {rows : List α}

/-- **Page-following is lossless.** -/
theorem Serves.follows (h : Serves listing key limit rows) (hlimit : 0 < limit) :
    Follows listing none rows := by
  -- what is left gets shorter with every page that is not the last one
  have hrest : ∀ n seen rest, rest.length = n → rows = seen ++ rest →
      Follows listing (cursor key seen) rest := by
    intro n
    induction n using Nat.strongRecOn with
    | _ n ih =>
      intro seen rest hn hrows
      have hpage := h seen rest hrows
      by_cases hmore : limit < rest.length
      · have hne : rest.take limit ≠ [] := by
          intro hnil
          have := congrArg List.length hnil
          simp only [List.length_take, List.length_nil] at this
          omega
        have hcursor : cursor key (seen ++ rest.take limit) =
            some (key ((rest.take limit).getLast hne)) := by
          simp [cursor, List.getLast?_append, List.getLast?_eq_some_getLast hne]
        have hnext := ih (rest.drop limit).length (by rw [List.length_drop]; omega)
          (seen ++ rest.take limit) (rest.drop limit) rfl (by simp [hrows])
        rw [hcursor] at hnext
        rw [cut, if_pos hmore, List.getLast?_eq_some_getLast hne] at hpage
        have := Follows.more hpage hnext
        rwa [List.take_append_drop] at this
      · rw [cut, if_neg hmore, List.take_of_length_le (Nat.not_lt.mp hmore)] at hpage
        exact .last hpage
  exact hrest rows.length [] rows rfl rfl

/-- Following the keys to the end yields every row exactly once and in order, and at every point a
next key is returned exactly if rows are left over. -/
def Lossless (listing : Option κ → Except ε (Page α κ)) (key : α → κ) (rows : List α) : Prop :=
  Follows listing none rows ∧
    ∀ seen rest, rows = seen ++ rest → ∃ page, listing (cursor key seen) = .ok page ∧
      page.items <+: rest ∧ (page.next.isSome = true ↔ page.items ≠ rest)

theorem Serves.lossless (h : Serves listing key limit rows) (hlimit : 0 < limit) :
    Lossless listing key rows := by
  refine ⟨h.follows hlimit, fun seen rest hrows => ⟨_, h seen rest hrows, ?_, ?_⟩⟩
  · exact List.take_prefix ..
  · rw [cut_next hlimit]
    show limit < rest.length ↔ rest.take limit ≠ rest
    rw [ne_eq, List.take_eq_self_iff, Nat.not_le]

/-! ## The keys that are handed out -/

/-- Following the keys from a cursor yields these items, and these keys on the way. -/
inductive Trail (listing : Option κ → Except ε (Page α κ)) : Option κ → List α → List κ → Prop
  | last {c items} (page : listing c = .ok ⟨items, none⟩) : Trail listing c items []
  | more {c c' items rest keys} (page : listing c = .ok ⟨items, some c'⟩)
      (trail : Trail listing (some c') rest keys) : Trail listing c (items ++ rest) (c' :: keys)

/-- There is one trail at most. -/
theorem Trail.unique {c : Option κ} {items items' : List α} {keys keys' : List κ}
    (h : Trail listing c items keys) (h' : Trail listing c items' keys') :
    items = items' ∧ keys = keys' := by
  induction h generalizing items' keys' with
  | last page =>
    cases h' with
    | last page' =>
      have heq := Except.ok.inj (page.symm.trans page')
      exact ⟨(Page.mk.inj heq).1, rfl⟩
    | more page' _ =>
      have heq := Except.ok.inj (page.symm.trans page')
      cases (Page.mk.inj heq).2
  | more page _ ih =>
    cases h' with
    | last page' =>
      have heq := Except.ok.inj (page.symm.trans page')
      cases (Page.mk.inj heq).2
    | more page' trail' =>
      have heq := Except.ok.inj (page.symm.trans page')
      obtain ⟨rfl, hkey⟩ := Page.mk.inj heq
      obtain rfl := Option.some.inj hkey
      obtain ⟨rfl, rfl⟩ := ih trail'
      exact ⟨rfl, rfl⟩

/-- A caller that is shown a part of each page follows the same keys. -/
theorem Trail.filterMap {ε' : Type} {listing' : Option κ → Except ε' (Page β κ)} {f : α → Option β}
    {c : Option κ} {items : List α} {keys : List κ} (htrail : Trail listing c items keys)
    (h : ∀ c page, listing c = .ok page → listing' c = .ok ⟨page.items.filterMap f, page.next⟩) :
    Trail listing' c (items.filterMap f) keys := by
  induction htrail with
  | last page => exact .last (h _ _ page)
  | more page _ ih =>
    rw [List.filterMap_append]
    exact .more (h _ _ page) ih

/-- The row is the last one of a page that is not the last page. -/
def EndsPage (limit : Nat) (rows : List α) (a : α) : Prop :=
  ∃ k, (k + 1) * limit < rows.length ∧ rows[(k + 1) * limit - 1]? = some a

theorem EndsPage.map {f : α → β} {b : β} :
    EndsPage limit (rows.map f) b ↔ ∃ a, EndsPage limit rows a ∧ f a = b := by
  unfold EndsPage
  simp only [List.length_map, List.getElem?_map, Option.map_eq_some_iff]
  constructor
  · rintro ⟨k, hk, a, ha, rfl⟩
    exact ⟨a, ⟨k, hk, ha⟩, rfl⟩
  · rintro ⟨a, ⟨k, hk, ha⟩, rfl⟩
    exact ⟨k, hk, a, ha, rfl⟩

theorem endsPage_drop {a : α} (hlimit : 0 < limit) (hmore : limit < rows.length) :
    EndsPage limit rows a ↔ rows[limit - 1]? = some a ∨ EndsPage limit (rows.drop limit) a := by
  unfold EndsPage
  simp only [List.length_drop, List.getElem?_drop]
  constructor
  · rintro ⟨k, hk, ha⟩
    cases k with
    | zero => exact Or.inl (by rwa [Nat.zero_add, Nat.one_mul] at ha)
    | succ k =>
      have hsplit : (k + 1 + 1) * limit = limit + (k + 1) * limit := by
        rw [Nat.succ_mul (k + 1), Nat.add_comm]
      have hpos : 0 < (k + 1) * limit := Nat.mul_pos (Nat.succ_pos k) hlimit
      refine Or.inr ⟨k, by omega, ?_⟩
      rwa [hsplit, Nat.add_sub_assoc hpos] at ha
  · rintro (ha | ⟨k, hk, ha⟩)
    · exact ⟨0, by omega, by rwa [Nat.zero_add, Nat.one_mul]⟩
    · have hsplit : (k + 1 + 1) * limit = limit + (k + 1) * limit := by
        rw [Nat.succ_mul (k + 1), Nat.add_comm]
      have hpos : 0 < (k + 1) * limit := Nat.mul_pos (Nat.succ_pos k) hlimit
      refine ⟨k + 1, by omega, ?_⟩
      rwa [hsplit, Nat.add_sub_assoc hpos]

/-- **The keys that are handed out** are those of the rows that end a page. -/
theorem Serves.trail (h : Serves listing key limit rows) (hlimit : 0 < limit) :
    ∃ keys, Trail listing none rows keys ∧ ∀ c, c ∈ keys ↔ ∃ a, EndsPage limit rows a ∧ key a = c := by
  -- what is left gets shorter with every page that is not the last one
  have hrest : ∀ n seen rest, rest.length = n → rows = seen ++ rest →
      ∃ keys, Trail listing (cursor key seen) rest keys ∧
        ∀ c, c ∈ keys ↔ ∃ a, EndsPage limit rest a ∧ key a = c := by
    intro n
    induction n using Nat.strongRecOn with
    | _ n ih =>
      intro seen rest hn hrows
      have hpage := h seen rest hrows
      by_cases hmore : limit < rest.length
      · have hlength : (rest.take limit).length = limit := by
          rw [List.length_take]
          omega
        have hne : rest.take limit ≠ [] := by
          intro hnil
          rw [hnil] at hlength
          simp only [List.length_nil] at hlength
          omega
        have hlast : (rest.take limit).getLast? = rest[limit - 1]? := by
          rw [List.getLast?_eq_getElem?, hlength, List.getElem?_take_of_lt (by omega)]
        obtain ⟨a, ha⟩ : ∃ a, rest[limit - 1]? = some a :=
          ⟨_, List.getElem?_eq_getElem (by omega : limit - 1 < rest.length)⟩
        have hcursor : cursor key (seen ++ rest.take limit) = some (key a) := by
          simp [cursor, List.getLast?_append, hlast, ha]
        obtain ⟨keys, htrail, hkeys⟩ := ih (rest.drop limit).length (by rw [List.length_drop]; omega)
          (seen ++ rest.take limit) (rest.drop limit) rfl (by simp [hrows])
        rw [hcursor] at htrail
        rw [cut, if_pos hmore, hlast, ha] at hpage
        have hwhole := Trail.more hpage htrail
        rw [List.take_append_drop] at hwhole
        refine ⟨key a :: keys, hwhole, fun c => ?_⟩
        rw [List.mem_cons, hkeys]
        simp only [endsPage_drop hlimit hmore, or_and_right, exists_or, ha, Option.some.injEq]
        simp [eq_comm]
      · rw [cut, if_neg hmore, List.take_of_length_le (Nat.not_lt.mp hmore)] at hpage
        refine ⟨[], .last hpage, fun c => ?_⟩
        simp only [List.not_mem_nil, false_iff]
        rintro ⟨a, ⟨k, hk, -⟩, -⟩
        have : limit ≤ (k + 1) * limit := Nat.le_mul_of_pos_left _ (Nat.succ_pos k)
        omega
  exact hrest rows.length [] rows rfl rfl

/-! ## Queries -/

/-- In a list ordered by its keys, what comes after the last key seen is the rest. -/
theorem filter_after (key : α → κ) (r : κ → κ → Prop) [DecidableRel r] {seen rest : List α}
    (h : (seen ++ rest).Pairwise fun a b => r (key a) (key b)) (hasymm : ∀ a b, r a b → ¬ r b a) :
    (seen ++ rest).filter (fun a => (cursor key seen).all fun k => r k (key a)) = rest := by
  obtain ⟨hseen, -, hacross⟩ := List.pairwise_append.mp h
  rw [List.filter_append]
  rcases List.eq_nil_or_concat seen with rfl | ⟨before, b, rfl⟩
  · simp [cursor]
  · rw [List.concat_eq_append] at hseen hacross ⊢
    have hcursor : cursor key (before ++ [b]) = some (key b) := by simp [cursor]
    have hnone : (before ++ [b]).filter (fun a => decide (r (key b) (key a))) = [] := by
      refine List.filter_eq_nil_iff.mpr fun a ha => ?_
      rcases List.mem_append.mp ha with hbefore | hlast
      · have := (List.pairwise_append.mp hseen).2.2 a hbefore b (by simp)
        simpa using hasymm _ _ this
      · obtain rfl := List.mem_singleton.mp hlast
        simpa using fun hb => hasymm _ _ hb hb
    have hall : rest.filter (fun a => decide (r (key b) (key a))) = rest := by
      refine List.filter_eq_self.mpr fun a ha => ?_
      simpa using hacross b (by simp) a ha
    simp only [hcursor, Option.all_some]
    rw [hnone, hall, List.nil_append]

/-- The newest rows first, numbered from one: what comes before the last number seen is the rest. -/
theorem filter_before {l : List α} {p : α × Nat → Bool} {seen rest : List (α × Nat)} (most : Nat)
    (h : l.zipIdx.reverse.filter p = seen ++ rest) (hmost : l.length < most) :
    (seen ++ rest).filter (fun x => x.2 + 1 < (seen.getLast?.map fun y => y.2 + 1).getD most) =
      rest := by
  have hdesc : (seen ++ rest).Pairwise fun a b => b.2 < a.2 := by
    rw [← h]
    refine List.Pairwise.filter p (List.pairwise_reverse.mpr ?_)
    have hidx : (l.zipIdx.map Prod.snd).Pairwise (· < ·) := by
      rw [List.zipIdx_map_snd]
      exact List.pairwise_lt_range'
    exact List.pairwise_map.mp hidx
  have hafter : (seen ++ rest).filter (fun x => (cursor Prod.snd seen).all fun i => x.2 < i) = rest :=
    filter_after Prod.snd (fun a b => b < a) hdesc fun _ _ hab hba => Nat.lt_asymm hab hba
  conv_rhs => rw [← hafter]
  refine List.filter_congr fun x hx => ?_
  cases hseen : seen.getLast? with
  | none =>
    have hlt : x.2 < l.length := by
      rw [← h] at hx
      have hmem := List.mem_reverse.mp (List.mem_of_mem_filter hx)
      exact (List.getElem?_eq_some_iff.mp (List.mem_zipIdx_iff_getElem?.mp hmem)).1
    simp only [cursor, hseen, Option.map_none, Option.all_none, Option.getD_none, decide_eq_true_eq]
    omega
  | some y => simp [cursor, hseen]

/-- A unique row is found at its index. -/
theorem findIdx?_unique {l : List α} {q : α → Bool} {a : α} {i : Nat} (h : l[i]? = some a)
    (hq : q a = true) (hunique : ∀ j b, l[j]? = some b → q b = true → j = i) :
    l.findIdx? q = some i := by
  obtain ⟨hi, rfl⟩ := List.getElem?_eq_some_iff.mp h
  refine List.findIdx?_eq_some_iff_getElem.mpr ⟨hi, hq, fun j hj hqj => ?_⟩
  have := hunique j _ (List.getElem?_eq_getElem (Nat.lt_trans hj hi)) hqj
  omega

/-- Rows with a unique key have a unique index. -/
theorem index_unique {f : α → κ} {l : List α} (h : (l.map f).Nodup) {i j : Nat} {a b : α}
    (hi : l[i]? = some a) (hj : l[j]? = some b) (hab : f a = f b) : i = j := by
  have hi' : (l.map f)[i]? = some (f a) := by rw [List.getElem?_map, hi]; rfl
  have hj' : (l.map f)[j]? = some (f a) := by rw [List.getElem?_map, hj, hab]; rfl
  exact (List.getElem?_inj (List.getElem?_eq_some_iff.mp hi').1 h).mp (hi'.trans hj'.symm)

/-- A query that succeeds on every row. -/
theorem mapM_ok {f : α → Except ε β} {g : α → β} {l : List α} (h : ∀ a ∈ l, f a = .ok (g a)) :
    l.mapM f = .ok (l.map g) := by
  induction l with
  | nil => rfl
  | cons a l ih =>
    rw [List.mapM_cons, h a List.mem_cons_self, ih fun b hb => h b (List.mem_cons_of_mem a hb)]
    rfl

/-- Read one row more than the page holds, and decode those that the page holds. -/
def fetch (read : α → Except ε β) (key : β → κ) (limit : Nat) (rows : List α) :
    Except ε (Page β κ) := do
  let fetched := rows.take (limit + 1)
  let items ← (fetched.take limit).mapM read
  return ⟨items, if limit < fetched.length then items.getLast?.map key else none⟩

/-- The results of a query that succeeds, row by row. -/
theorem forall₂_of_mapM {f : α → Except ε β} {l : List α} {items : List β} (h : l.mapM f = .ok items) :
    List.Forall₂ (fun a b => f a = .ok b) l items := by
  induction l generalizing items with
  | nil =>
    cases h
    exact .nil
  | cons a l ih =>
    rw [List.mapM_cons] at h
    cases ha : f a with
    | error e =>
      rw [ha] at h
      cases h
    | ok b =>
      cases hl : l.mapM f with
      | error e =>
        rw [ha, hl] at h
        cases h
      | ok bs =>
        rw [ha, hl] at h
        cases h
        exact .cons ha (ih hl)

theorem getLast_of_forall₂ {R : α → β → Prop} {l : List α} {l' : List β} (h : List.Forall₂ R l l') {a : α}
    (ha : l.getLast? = some a) : ∃ b, l'.getLast? = some b ∧ R a b := by
  obtain ⟨hlength, hget⟩ := List.forall₂_iff_get.mp h
  rw [List.getLast?_eq_getElem?, List.getElem?_eq_some_iff] at ha
  obtain ⟨hlt, rfl⟩ := ha
  have hlt' : l.length - 1 < l'.length := hlength ▸ hlt
  refine ⟨l'[l.length - 1], ?_, hget _ hlt hlt'⟩
  rw [List.getLast?_eq_getElem?, ← hlength]
  exact List.getElem?_eq_getElem hlt'

/-- A query that fails does so on a row. -/
theorem mapM_error {f : α → Except ε β} {l : List α} {e : ε} (h : l.mapM f = .error e) :
    ∃ a ∈ l, f a = .error e := by
  induction l with
  | nil => cases h
  | cons a l ih =>
    rw [List.mapM_cons] at h
    cases ha : f a with
    | error e' =>
      rw [ha] at h
      cases h
      exact ⟨a, List.mem_cons_self, ha⟩
    | ok b =>
      cases hl : l.mapM f with
      | error e' =>
        rw [ha, hl] at h
        cases h
        obtain ⟨a', ha', herror⟩ := ih hl
        exact ⟨a', List.mem_cons_of_mem a ha', herror⟩
      | ok bs =>
        rw [ha, hl] at h
        cases h

/-- A page that fails does so on a row that it would hold. -/
theorem fetch_error {read : α → Except ε β} {key : β → κ} {e : ε}
    (h : fetch read key limit rows = .error e) : ∃ a ∈ rows.take limit, read a = .error e := by
  unfold fetch at h
  cases hitems : ((rows.take (limit + 1)).take limit).mapM read with
  | error e' =>
    simp only [hitems] at h
    cases h
    obtain ⟨a, ha, herror⟩ := mapM_error hitems
    rw [List.take_take, Nat.min_eq_left (Nat.le_succ limit)] at ha
    exact ⟨a, ha, herror⟩
  | ok items =>
    simp only [hitems] at h
    cases h

/-- What a page holds, and whether there is another. -/
theorem fetch_page {read : α → Except ε β} {key : β → κ} {page : Page β κ}
    (h : fetch read key limit rows = .ok page) :
    List.Forall₂ (fun a b => read a = .ok b) (rows.take limit) page.items ∧
      page.next = if limit < rows.length then page.items.getLast?.map key else none := by
  unfold fetch at h
  cases hitems : ((rows.take (limit + 1)).take limit).mapM read with
  | error e =>
    simp only [hitems] at h
    cases h
  | ok items =>
    simp only [hitems] at h
    cases h
    have hread := forall₂_of_mapM hitems
    rw [List.take_take, Nat.min_eq_left (Nat.le_succ limit)] at hread
    have hmore : limit < (rows.take (limit + 1)).length ↔ limit < rows.length := by
      rw [List.length_take]
      omega
    refine ⟨hread, ?_⟩
    by_cases hlong : limit < rows.length
    · rw [if_pos hlong, if_pos (hmore.mpr hlong)]
    · rw [if_neg hlong, if_neg fun h => hlong (hmore.mp h)]

/-- Every item of a page was decoded from a row. -/
theorem mem_of_fetch {read : α → Except ε β} {key : β → κ} {page : Page β κ}
    (h : fetch read key limit rows = .ok page) {b : β} (hb : b ∈ page.items) :
    ∃ a ∈ rows, read a = .ok b := by
  obtain ⟨n, hn, rfl⟩ := List.mem_iff_getElem.mp hb
  obtain ⟨hlength, hget⟩ := List.forall₂_iff_get.mp (fetch_page h).1
  exact ⟨_, List.mem_of_mem_take (List.get_mem _ ⟨n, by omega⟩), hget n (by omega) hn⟩

theorem fetch_ok {read : α → Except ε β} {g : α → β} {key : β → κ}
    (h : ∀ a ∈ rows, read a = .ok (g a)) :
    fetch read key limit rows = .ok (cut key limit (rows.map g)) := by
  have htake : (rows.take (limit + 1)).take limit = rows.take limit := by
    rw [List.take_take, Nat.min_eq_left (Nat.le_succ limit)]
  have hmore : limit < (rows.take (limit + 1)).length ↔ limit < (rows.map g).length := by
    rw [List.length_take, List.length_map]
    omega
  rw [fetch, htake, mapM_ok fun a ha => h a (List.mem_of_mem_take ha)]
  simp only [cut, hmore, List.map_take]
  rfl

/-- A listing that fetches, of rows in a fixed order, those after the cursor. -/
theorem serves_of_fetch {listing : Option κ → Except ε (Page β κ)} {key : β → κ}
    (read : α → Except ε β) (g : α → β) (select : Option κ → α → Bool)
    (hread : ∀ a ∈ rows, read a = .ok (g a))
    (hselect : ∀ seen rest, rows = seen ++ rest →
      rows.filter (select (cursor (key ∘ g) seen)) = rest)
    (hlisting : ∀ seen rest, rows = seen ++ rest →
      listing (cursor (key ∘ g) seen) =
        fetch read key limit (rows.filter (select (cursor (key ∘ g) seen)))) :
    Serves listing key limit (rows.map g) := by
  intro seen rest hsplit
  obtain ⟨a, b, rfl, rfl, rfl⟩ := List.map_eq_append_iff.mp hsplit
  have hcursor : cursor key (a.map g) = cursor (key ∘ g) a := by simp [cursor]
  rw [hcursor, hlisting a b rfl, hselect a b rfl]
  exact fetch_ok fun x hx => hread x (List.mem_append_right a hx)

/-- `ORDER BY` a unique key. -/
theorem pairwise_lt_insertionSort [LinearOrder κ] {key : α → κ} (h : (rows.map key).Nodup) :
    (rows.insertionSort fun a b => key a ≤ key b).Pairwise fun a b => key a < key b := by
  have hle := List.pairwise_insertionSort (fun a b => key a ≤ key b) rows
  have hne : (rows.insertionSort fun a b => key a ≤ key b).Pairwise fun a b => key a ≠ key b := by
    have hperm := (List.perm_insertionSort (fun a b => key a ≤ key b) rows).map key
    exact List.pairwise_map.mp (hperm.nodup_iff.mpr h)
  exact (hle.and hne).imp fun hab => lt_of_le_of_ne hab.1 hab.2

end Paging
