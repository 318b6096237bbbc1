import WidgetStyle.Proofs.Memo

/-!
# What it means that a chain selects a node

A chain selects the last node of a path where its links can be put on nodes of the path: from left
to right ever further down, a child link directly below the link on its left, the last link on the
last node, and each on a node that has all that its selector names. Such an `Embedding` says nothing
about where to look first or when to give up, so it is what the search of the matcher is measured
by (`selects_iff_embedding`).

Towards the matcher the places of an embedding are read off as a `Row`, in which each link but the
first is related to the one on its left, as the matcher goes from each link to the one on its left.
-/

namespace WidgetStyle

/-- The node has every part that the selector names; where no element is named, any will do. -/
structure SimpleSelector.Fits (selector : SimpleSelector) (node : Node) : Prop where
  element : ∀ name ∈ selector.element, node.element = name
  className : ∀ name ∈ selector.className, node.className = some name
  id : ∀ name ∈ selector.id, node.id = some name

theorem SimpleSelector.fits_iff_selects {selector : SimpleSelector} {node : Node} :
    selector.Fits node ↔ selector.selects node = true := by
  rw [selects_iff]
  constructor
  · rintro ⟨helement, hclassName, hid⟩
    exact ⟨helement, hclassName, hid⟩
  · rintro ⟨helement, hclassName, hid⟩
    exact ⟨helement, hclassName, hid⟩

theorem Combinator.Reaches.lt {combinator : Combinator} {above place : Nat}
    (hreaches : combinator.Reaches above place) : above < place := by
  cases combinator with
  | child => exact Nat.lt_of_succ_le (Nat.le_of_eq hreaches)
  | descendant => exact hreaches

namespace Chain

/-- The links of a chain on nodes of a path. -/
structure Embedding (chain : Chain) (path : Path) where
  place : Fin chain.links.length → Fin path.length
  increasing : ∀ link next, link < next → place link < place next
  /-- The last link is on the last node. -/
  ends : ∀ link : Fin chain.links.length, link.val + 1 = chain.links.length →
    (place link).val + 1 = path.length
  /-- A child is directly below the node for the link on its left. -/
  adjacent : ∀ link next : Fin chain.links.length, next.val = link.val + 1 →
    chain.links[next].combinator = .child → (place next).val = (place link).val + 1
  fits : ∀ link : Fin chain.links.length, chain.links[link].selector.Fits path[place link]

theorem length_links (chain : Chain) : chain.links.length = chain.length := by
  induction chain with
  | single selector => rfl
  | extend left combinator selector ih => simp [links, length, ih]

/-! ### Rows -/

/-- Links on nodes of a path, each in reach of the one on its left. Numbers behind that of the last
link have places too, about which nothing is said. -/
structure Row (path : Array Node) (chain : Chain) (place : Nat → Fin path.size) : Prop where
  step : ∀ (number : Nat) (link : Link), chain.links[number + 1]? = some link →
    link.combinator.Reaches (place number) (place (number + 1))
  fits : ∀ (number : Nat) (link : Link), chain.links[number]? = some link →
    link.selector.selects path[place number] = true

variable {path : Array Node} {place : Nat → Fin path.size}

theorem links_extend_of_lt {left : Chain} {combinator : Combinator} {selector : SimpleSelector}
    {number : Nat} (hless : number < left.length) :
    (left.extend combinator selector).links[number]? = left.links[number]? :=
  List.getElem?_append_left (left.length_links ▸ hless)

theorem links_extend_length (left : Chain) (combinator : Combinator) (selector : SimpleSelector) :
    (left.extend combinator selector).links[left.length]? = some ⟨combinator, selector⟩ := by
  rw [links, ← length_links, List.getElem?_concat_length]

theorem lt_length_of_links {chain : Chain} {number : Nat} {link : Link}
    (hlink : chain.links[number]? = some link) : number < chain.length := by
  rw [← length_links]
  exact (List.getElem?_eq_some_iff.mp hlink).1

/-- A row of a chain with one more link is a row of the chain and a place in reach of its end. -/
theorem row_extend_iff {left : Chain} {combinator : Combinator} {selector : SimpleSelector} :
    Row path (left.extend combinator selector) place ↔
      Row path left place ∧
        combinator.Reaches (place (left.length - 1)) (place left.length) ∧
        selector.selects path[place left.length] = true := by
  have hlast := links_extend_length left combinator selector
  have hnumber : left.length - 1 + 1 = left.length := Nat.sub_add_cancel left.length_pos
  constructor
  · intro hrow
    refine ⟨⟨?_, ?_⟩, ?_, hrow.fits _ _ hlast⟩
    · intro number link hlink
      rw [← links_extend_of_lt (lt_length_of_links hlink)] at hlink
      exact hrow.step number link hlink
    · intro number link hlink
      rw [← links_extend_of_lt (lt_length_of_links hlink)] at hlink
      exact hrow.fits number link hlink
    · have hstep := hrow.step (left.length - 1) ⟨combinator, selector⟩ (by rw [hnumber, hlast])
      rwa [hnumber] at hstep
  · rintro ⟨hrow, hreaches, hselects⟩
    -- a link of the longer chain is one of the shorter chain, or the last one
    have hcases : ∀ number link, (left.extend combinator selector).links[number]? = some link →
        left.links[number]? = some link ∨ number = left.length ∧ link = ⟨combinator, selector⟩ := by
      intro number link hlink
      rcases Nat.lt_succ_iff_lt_or_eq.mp (lt_length_of_links hlink) with hless | rfl
      · exact Or.inl (links_extend_of_lt hless ▸ hlink)
      · rw [hlast] at hlink
        exact Or.inr ⟨rfl, (Option.some.inj hlink).symm⟩
    constructor
    · intro number link hlink
      rcases hcases (number + 1) link hlink with hleft | ⟨hend, rfl⟩
      · exact hrow.step number link hleft
      · have hfront : number = left.length - 1 := by omega
        rw [hend, hfront]
        exact hreaches
    · intro number link hlink
      rcases hcases number link hlink with hleft | ⟨rfl, rfl⟩
      · exact hrow.fits number link hleft
      · exact hselects

/-- Only the places of the links matter. -/
theorem Row.congr {chain : Chain} {place' : Nat → Fin path.size} (hrow : Row path chain place)
    (hsame : ∀ number < chain.length, place' number = place number) : Row path chain place' := by
  constructor
  · intro number link hlink
    have hnext := lt_length_of_links hlink
    rw [hsame _ hnext, hsame _ (Nat.lt_of_succ_lt hnext)]
    exact hrow.step number link hlink
  · intro number link hlink
    simp only [hsame _ (lt_length_of_links hlink)]
    exact hrow.fits number link hlink

/-- What the matcher asks about a chain and a place is whether some row ends there. -/
theorem fitsAt_iff_row {chain : Chain} {last : Fin path.size} :
    chain.FitsAt path last ↔ ∃ place, Row path chain place ∧ place (chain.length - 1) = last := by
  induction chain generalizing last with
  | single selector =>
    constructor
    · intro hselects
      refine ⟨fun _ => last, ⟨?_, ?_⟩, rfl⟩
      · intro number link hlink
        cases hlink
      · intro number link hlink
        rcases number with _ | number
        · cases hlink
          exact hselects
        · cases hlink
    · rintro ⟨place, hrow, rfl⟩
      exact hrow.fits 0 _ rfl
  | extend left combinator selector ih =>
    constructor
    · rintro ⟨hselects, above, hreaches, hfits⟩
      obtain ⟨place, hrow, hplace⟩ := ih.mp hfits
      let extended : Nat → Fin path.size :=
        fun number => if number < left.length then place number else last
      have hbefore : ∀ number < left.length, extended number = place number :=
        fun number hless => if_pos hless
      have hend : extended left.length = last := if_neg (Nat.lt_irrefl _)
      refine ⟨extended, row_extend_iff.mpr ⟨hrow.congr hbefore, ?_, ?_⟩, hend⟩
      · rw [hbefore _ (Nat.sub_lt left.length_pos Nat.one_pos), hplace, hend]
        exact hreaches
      · simp only [hend]
        exact hselects
    · rintro ⟨place, hrow, rfl⟩
      obtain ⟨hleft, hreaches, hselects⟩ := row_extend_iff.mp hrow
      exact ⟨hselects, place (left.length - 1), hreaches, ih.mpr ⟨place, hleft, rfl⟩⟩

theorem Row.increasing {chain : Chain} (hrow : Row path chain place) {number later : Nat}
    (hless : number < later) (hlater : later < chain.length) : place number < place later := by
  induction later with
  | zero => exact absurd hless (Nat.not_lt_zero number)
  | succ later ih =>
    obtain ⟨link, hlink⟩ : ∃ link, chain.links[later + 1]? = some link :=
      ⟨_, List.getElem?_eq_getElem (chain.length_links ▸ hlater)⟩
    have hstep : place later < place (later + 1) := (hrow.step later link hlink).lt
    rcases Nat.lt_succ_iff_lt_or_eq.mp hless with hbefore | rfl
    · exact Nat.lt_trans (ih hbefore (Nat.lt_of_succ_lt hlater)) hstep
    · exact hstep

/-! ### Rows and embeddings -/

theorem Row.nonempty_embedding {chain : Chain} {path : Path} {place : Nat → Fin path.length}
    (hrow : Row path.toArray chain place)
    (hlast : (place (chain.length - 1)).val + 1 = path.length) :
    Nonempty (chain.Embedding path) := by
  have hlink : ∀ link : Fin chain.links.length, chain.links[link.val]? = some chain.links[link] :=
    fun link => List.getElem?_eq_getElem link.isLt
  refine ⟨fun link => place link, ?_, ?_, ?_, ?_⟩
  · intro link next hless
    exact hrow.increasing hless (chain.length_links ▸ next.isLt)
  · intro link hend
    have hlength := chain.length_links
    have hnumber : chain.length - 1 = link.val := by omega
    rw [← hnumber]
    exact hlast
  · rintro link ⟨next, hnext⟩ hsame hchild
    obtain rfl : next = link.val + 1 := hsame
    have hstep := hrow.step link _ (hlink ⟨link.val + 1, hnext⟩)
    rw [hchild] at hstep
    exact hstep.symm
  · intro link
    exact SimpleSelector.fits_iff_selects.mpr (hrow.fits link _ (hlink link))

theorem Embedding.exists_row {chain : Chain} {path : Path} (embedding : chain.Embedding path) :
    ∃ place : Nat → Fin path.length,
      Row path.toArray chain place ∧ (place (chain.length - 1)).val + 1 = path.length := by
  have hlength := chain.length_links
  have hfirst : 0 < chain.links.length := hlength ▸ chain.length_pos
  let place : Nat → Fin path.length := fun number =>
    if hnumber : number < chain.links.length then embedding.place ⟨number, hnumber⟩
    else embedding.place ⟨0, hfirst⟩
  have hplace : ∀ number (hnumber : number < chain.links.length),
      place number = embedding.place ⟨number, hnumber⟩ := fun number hnumber => dif_pos hnumber
  refine ⟨place, ⟨?_, ?_⟩, ?_⟩
  · intro number link hlink
    obtain ⟨hnext, rfl⟩ := List.getElem?_eq_some_iff.mp hlink
    have hnumber := Nat.lt_of_succ_lt hnext
    rw [hplace _ hnext, hplace _ hnumber]
    rcases hcombinator : chain.links[number + 1].combinator with _ | _
    · exact embedding.increasing ⟨number, hnumber⟩ ⟨number + 1, hnext⟩ (Nat.lt_succ_self number)
    · exact (embedding.adjacent ⟨number, hnumber⟩ ⟨number + 1, hnext⟩ rfl hcombinator).symm
  · intro number link hlink
    obtain ⟨hnumber, rfl⟩ := List.getElem?_eq_some_iff.mp hlink
    simp only [hplace _ hnumber]
    exact SimpleSelector.fits_iff_selects.mp (embedding.fits ⟨number, hnumber⟩)
  · have hend : chain.length - 1 < chain.links.length :=
      Nat.lt_of_lt_of_le (Nat.sub_lt chain.length_pos Nat.one_pos) (Nat.le_of_eq hlength.symm)
    have hcount : chain.length - 1 + 1 = chain.links.length :=
      (Nat.sub_add_cancel chain.length_pos).trans hlength.symm
    rw [hplace _ hend]
    exact embedding.ends ⟨chain.length - 1, hend⟩ hcount

/-- A chain selects the last node of a path exactly where its links can be put on nodes of the
path. -/
theorem selects_iff_embedding (chain : Chain) (path : Path) :
    chain.selects path = true ↔ Nonempty (chain.Embedding path) := by
  rw [selects_iff_fitsAt]
  constructor
  · rintro ⟨last, hlast, hfits⟩
    obtain ⟨place, hrow, rfl⟩ := fitsAt_iff_row.mp hfits
    exact hrow.nonempty_embedding hlast
  · rintro ⟨embedding⟩
    obtain ⟨place, hrow, hlast⟩ := embedding.exists_row
    exact ⟨place (chain.length - 1), hlast, fitsAt_iff_row.mpr ⟨place, hrow, rfl⟩⟩

end Chain

end WidgetStyle
