import StudStuff.RedBlackTree.Shape

/-!
# The colour invariants of shapes and contexts

`Balanced tree color height` says that a tree has a root of a given colour, that no red node in
it has a red child, and that every path down to the sentinel passes `height` black nodes.
`Accepts frames color height` says the same of a context: a tree with that colour and height may
be plugged in, and the whole is then balanced with a black root (`Accepts.plug`). Splitting a
balanced tree at a focus gives both parts (`Balanced.split`). A focus whose height is one short of
what its context accepts is what a removal leaves behind, and a red focus in a context that
accepts only black is what an insertion leaves behind.

`NoRedRed` and `blackCounts` are the two colour properties in the words of the header comment of
the fixup functions; `Balanced` implies them and follows from them.
-/

set_option autoImplicit false
set_option relaxedAutoImplicit false

namespace StudStuff.RedBlackTree

variable {Key : Type}

/-! ### Balanced trees -/

/-- The colour invariants below a node: root colour and number of black nodes on every path. -/
inductive Balanced : Tree Key → Color → ℕ → Prop
  | nil : Balanced .nil .black 0
  | red {address : ℕ} {left right : Tree Key} {key : Key} {height : ℕ}
      (hleft : Balanced left .black height) (hright : Balanced right .black height) :
      Balanced (.node address .red left key right) .red height
  | black {address : ℕ} {left right : Tree Key} {key : Key} {height : ℕ}
      {leftColor rightColor : Color} (hleft : Balanced left leftColor height)
      (hright : Balanced right rightColor height) :
      Balanced (.node address .black left key right) .black (height + 1)

namespace Balanced

theorem color_eq {tree : Tree Key} {color : Color} {height : ℕ} (h : Balanced tree color height) :
    tree.color = color := by
  cases h <;> rfl

/-- A red node over black subtrees, on either side. -/
theorem branch_red {side : Side} {address : ℕ} {inner outer : Tree Key} {key : Key} {height : ℕ}
    (hinner : Balanced inner .black height) (houter : Balanced outer .black height) :
    Balanced (.branch side address .red inner key outer) .red height := by
  cases side with
  | left => exact .red hinner houter
  | right => exact .red houter hinner

/-- A black node over any subtrees of one height, on either side. -/
theorem branch_black {side : Side} {address : ℕ} {inner outer : Tree Key} {key : Key} {height : ℕ}
    {innerColor outerColor : Color} (hinner : Balanced inner innerColor height)
    (houter : Balanced outer outerColor height) :
    Balanced (.branch side address .black inner key outer) .black (height + 1) := by
  cases side with
  | left => exact .black hinner houter
  | right => exact .black houter hinner

theorem of_branch_red {side : Side} {address : ℕ} {inner outer : Tree Key} {key : Key}
    {color : Color} {height : ℕ}
    (h : Balanced (.branch side address .red inner key outer) color height) :
    Balanced inner .black height ∧ Balanced outer .black height := by
  cases side with
  | left =>
    cases h with
    | red hleft hright => exact ⟨hleft, hright⟩
  | right =>
    cases h with
    | red hleft hright => exact ⟨hright, hleft⟩

theorem of_branch_black {side : Side} {address : ℕ} {inner outer : Tree Key} {key : Key}
    {color : Color} {height : ℕ}
    (h : Balanced (.branch side address .black inner key outer) color (height + 1)) :
    (∃ innerColor, Balanced inner innerColor height) ∧
      ∃ outerColor, Balanced outer outerColor height := by
  cases side with
  | left =>
    cases h with
    | black hleft hright => exact ⟨⟨_, hleft⟩, _, hright⟩
  | right =>
    cases h with
    | black hleft hright => exact ⟨⟨_, hright⟩, _, hleft⟩

/-- Blackening a red root makes every path one longer. -/
theorem recolor_black {tree : Tree Key} {height : ℕ} (h : Balanced tree .red height) :
    Balanced (tree.recolor .black) .black (height + 1) := by
  cases h with
  | red hleft hright => exact .black hleft hright

/-- Any tree with balanced subtrees can be given a black root. -/
theorem exists_recolor_black {tree : Tree Key} {color : Color} {height : ℕ}
    (h : Balanced tree color height) :
    ∃ height', Balanced (tree.recolor .black) .black height' := by
  cases h with
  | nil => exact ⟨0, .nil⟩
  | red hleft hright => exact ⟨_, .black hleft hright⟩
  | black hleft hright => exact ⟨_, .black hleft hright⟩

/-- Recolouring with the present colour changes nothing. -/
theorem recolor_self {tree : Tree Key} {height : ℕ} (h : Balanced tree .black height) :
    tree.recolor .black = tree := by
  cases h <;> rfl

theorem ne_nil_of_red {tree : Tree Key} {height : ℕ} (h : Balanced tree .red height) :
    tree ≠ .nil := by
  rintro rfl
  cases h

/-- A red tree is a red node, seen from either side. -/
theorem red_cases {tree : Tree Key} {height : ℕ} (h : Balanced tree .red height) (side : Side) :
    ∃ address inner key outer, tree = .branch side address .red inner key outer ∧
      Balanced inner .black height ∧ Balanced outer .black height := by
  cases h with
  | @red address left right key height hleft hright =>
    cases side with
    | left => exact ⟨address, left, key, right, rfl, hleft, hright⟩
    | right => exact ⟨address, right, key, left, rfl, hright, hleft⟩

/-- A black tree of positive height is a black node, seen from either side. -/
theorem black_cases {tree : Tree Key} {height : ℕ} (h : Balanced tree .black (height + 1))
    (side : Side) : ∃ address inner key outer innerColor outerColor,
      tree = .branch side address .black inner key outer ∧
        Balanced inner innerColor height ∧ Balanced outer outerColor height := by
  cases h with
  | @black address left right key height leftColor rightColor hleft hright =>
    cases side with
    | left => exact ⟨address, left, key, right, _, _, rfl, hleft, hright⟩
    | right => exact ⟨address, right, key, left, _, _, rfl, hright, hleft⟩

end Balanced

/-! ### Contexts -/

/-- A context takes a tree of a given colour and height and stays balanced, with a black root. -/
def Accepts : List (Frame Key) → Color → ℕ → Prop
  | [], color, _ => color = .black
  | frame :: rest, color, height =>
    match frame.color with
    | .red => color = .black ∧ Balanced frame.sibling .black height ∧ Accepts rest .red height
    | .black => (∃ siblingColor, Balanced frame.sibling siblingColor height) ∧
        Accepts rest .black (height + 1)

namespace Accepts

theorem nil (height : ℕ) : Accepts ([] : List (Frame Key)) .black height := rfl

theorem cons_red {frame : Frame Key} {rest : List (Frame Key)} {height : ℕ}
    (hcolor : frame.color = .red) (hsibling : Balanced frame.sibling .black height)
    (hrest : Accepts rest .red height) : Accepts (frame :: rest) .black height := by
  simp only [Accepts, hcolor]
  exact ⟨trivial, hsibling, hrest⟩

theorem cons_black {frame : Frame Key} {rest : List (Frame Key)} {color siblingColor : Color}
    {height : ℕ} (hcolor : frame.color = .black)
    (hsibling : Balanced frame.sibling siblingColor height)
    (hrest : Accepts rest .black (height + 1)) : Accepts (frame :: rest) color height := by
  simp only [Accepts, hcolor]
  exact ⟨⟨_, hsibling⟩, hrest⟩

theorem of_cons_red {frame : Frame Key} {rest : List (Frame Key)} {color : Color} {height : ℕ}
    (h : Accepts (frame :: rest) color height) (hcolor : frame.color = .red) :
    color = .black ∧ Balanced frame.sibling .black height ∧ Accepts rest .red height := by
  simpa only [Accepts, hcolor] using h

theorem of_cons_black {frame : Frame Key} {rest : List (Frame Key)} {color : Color} {height : ℕ}
    (h : Accepts (frame :: rest) color height) (hcolor : frame.color = .black) :
    (∃ siblingColor, Balanced frame.sibling siblingColor height) ∧
      Accepts rest .black (height + 1) := by
  simpa only [Accepts, hcolor] using h

/-- The node above a red focus is black. -/
theorem of_red {frames : List (Frame Key)} {height : ℕ} (h : Accepts frames .red height) :
    ∃ frame rest, frames = frame :: rest ∧ frame.color = .black := by
  cases frames with
  | nil => exact absurd h (by simp [Accepts])
  | cons frame rest =>
    refine ⟨frame, rest, rfl, ?_⟩
    by_contra hcolor
    have hred : frame.color = .red := by
      cases hc : frame.color with
      | red => rfl
      | black => exact absurd hc hcolor
    exact absurd (h.of_cons_red hred).1 (by simp)

/-- Where a red tree fits, a black one does. -/
theorem black {frames : List (Frame Key)} {color : Color} {height : ℕ}
    (h : Accepts frames color height) : Accepts frames .black height := by
  cases color with
  | black => exact h
  | red =>
    obtain ⟨frame, rest, rfl, hcolor⟩ := h.of_red
    obtain ⟨⟨_, hsibling⟩, hrest⟩ := h.of_cons_black hcolor
    exact cons_black hcolor hsibling hrest

/-- The frame above a focus, when the height it accepts is known, holds a sibling of that
height. -/
theorem sibling {frame : Frame Key} {rest : List (Frame Key)} {color : Color} {height : ℕ}
    (h : Accepts (frame :: rest) color height) : ∃ siblingColor,
      Balanced frame.sibling siblingColor height := by
  cases hcolor : frame.color with
  | red => exact ⟨_, (h.of_cons_red hcolor).2.1⟩
  | black => exact (h.of_cons_black hcolor).1

/-- Plugging a balanced tree into a context that accepts it. -/
theorem plug {focus : Tree Key} {frames : List (Frame Key)} {color : Color} {height : ℕ}
    (h : Accepts frames color height) (hfocus : Balanced focus color height) :
    ∃ height', Balanced (plug focus frames) .black height' := by
  induction frames generalizing focus color height with
  | nil =>
    obtain rfl : color = .black := h
    exact ⟨height, hfocus⟩
  | cons frame rest ih =>
    cases hcolor : frame.color with
    | red =>
      obtain ⟨rfl, hsibling, hrest⟩ := h.of_cons_red hcolor
      refine ih hrest ?_
      rw [Frame.plug, hcolor]
      exact .branch_red hfocus hsibling
    | black =>
      obtain ⟨⟨_, hsibling⟩, hrest⟩ := h.of_cons_black hcolor
      refine ih hrest ?_
      rw [Frame.plug, hcolor]
      exact .branch_black hfocus hsibling

end Accepts

/-- A balanced tree with a black root, split at a focus. -/
theorem Balanced.split {focus : Tree Key} {frames : List (Frame Key)} {height : ℕ}
    (h : Balanced (plug focus frames) .black height) :
    ∃ height', Balanced focus focus.color height' ∧ Accepts frames focus.color height' := by
  induction frames generalizing focus with
  | nil =>
    have hcolor := h.color_eq
    rw [plug_nil] at hcolor h
    exact ⟨height, hcolor ▸ h, hcolor⟩
  | cons frame rest ih =>
    obtain ⟨height', hplug, hrest⟩ := ih h
    rw [Frame.plug, Tree.color_branch] at hplug hrest
    cases hcolor : frame.color with
    | red =>
      rw [hcolor] at hplug hrest
      obtain ⟨hfocus, hsibling⟩ := hplug.of_branch_red
      rw [hfocus.color_eq]
      exact ⟨height', hfocus, .cons_red hcolor hsibling hrest⟩
    | black =>
      rw [hcolor] at hplug hrest
      cases height' with
      | zero => cases hside : frame.side <;> simp only [hside, Tree.branch] at hplug <;> cases hplug
      | succ height' =>
        obtain ⟨⟨color, hfocus⟩, _, hsibling⟩ := hplug.of_branch_black
        rw [hfocus.color_eq]
        exact ⟨height', hfocus, .cons_black hcolor hsibling hrest⟩

/-! ### The invariants in the words of the source -/

/-- No red node has a red child. -/
def Tree.NoRedRed : Tree Key → Prop
  | nil => True
  | node _ color left _ right =>
    (color = .red → left.color = .black ∧ right.color = .black) ∧ left.NoRedRed ∧ right.NoRedRed

/-- The number of black nodes on each path from the root to a nil child, from left to right. -/
def Tree.blackCounts : Tree Key → List ℕ
  | nil => [0]
  | node _ color left _ right =>
    (left.blackCounts ++ right.blackCounts).map fun count ↦
      count + if color = .black then 1 else 0

theorem Balanced.noRedRed {tree : Tree Key} {color : Color} {height : ℕ}
    (h : Balanced tree color height) : tree.NoRedRed := by
  induction h with
  | nil => trivial
  | red hleft hright ihl ihr => exact ⟨fun _ ↦ ⟨hleft.color_eq, hright.color_eq⟩, ihl, ihr⟩
  | black hleft hright ihl ihr => exact ⟨fun h ↦ absurd h (by decide), ihl, ihr⟩

theorem Balanced.blackCounts {tree : Tree Key} {color : Color} {height : ℕ}
    (h : Balanced tree color height) : ∀ count ∈ tree.blackCounts, count = height := by
  induction h with
  | nil => simp [Tree.blackCounts]
  | red hleft hright ihl ihr =>
    simp only [Tree.blackCounts, List.mem_map, List.mem_append]
    rintro count ⟨count', hmem | hmem, rfl⟩
    · exact ihl count' hmem
    · exact ihr count' hmem
  | black hleft hright ihl ihr =>
    simp only [Tree.blackCounts, List.mem_map, List.mem_append]
    rintro count ⟨count', hmem | hmem, rfl⟩
    · exact congrArg (· + 1) (ihl count' hmem)
    · exact congrArg (· + 1) (ihr count' hmem)

end StudStuff.RedBlackTree
