import SourceIndex.Proofs.Chunk.Ceiling
/-!
# Windows one after the other

However text is cut into windows, each begins with the line after the last one of the window before.
So a window holds just the lines that its numbers say, and no two windows share a line.
-/

namespace SourceIndex

namespace Window

/-! ### Windows that follow each other -/

/-- Windows of which the first has the given number for its first line and each other one begins
where the one before ends. -/
def Follow : Int → List Window → Prop
  | _, [] => True
  | start, w :: rest => w.start = start ∧ Follow (start + w.lines.length) rest

theorem follow_append {start : Int} {first second : List Window} :
    Follow start (first ++ second) ↔ Follow start first ∧
      Follow (start + (first.flatMap (·.lines)).length) second := by
  induction first generalizing start with
  | nil => simp [Follow]
  | cons w rest ih =>
    have total : start + (w.lines.length : Int) + ((rest.flatMap (·.lines)).length : Int) =
        start + (((w :: rest).flatMap (·.lines)).length : Int) := by
      rw [List.flatMap_cons, List.length_append]
      omega
    rw [List.cons_append, Follow, Follow, ih, total, and_assoc]

theorem follow_bisect (maxBytes start : Int) (lines : List String) :
    Follow start (bisect maxBytes start lines) := by
  fun_induction bisect maxBytes start lines with
  | case1 start lines small => exact ⟨rfl, trivial⟩
  | case2 start lines large middle first second =>
    have size : ((bisect maxBytes start (lines.take middle)).flatMap (·.lines)).length =
        middle := by
      rw [flatMap_lines_bisect, List.length_take]
      omega
    rw [follow_append, size]
    exact ⟨first, second⟩

theorem Follow.lines_eq {start : Int} {ws : List Window} (follow : Follow start ws) {w : Window}
    (member : w ∈ ws) : ∃ before after, ws.flatMap (·.lines) = before ++ w.lines ++ after ∧
      w.start = start + before.length := by
  obtain ⟨first, second, rfl⟩ := List.append_of_mem member
  obtain ⟨-, here, -⟩ := follow_append.mp follow
  exact ⟨first.flatMap (·.lines), second.flatMap (·.lines), by simp, here⟩

theorem Follow.start_le {start : Int} {ws : List Window} (follow : Follow start ws) {w : Window}
    (member : w ∈ ws) : start ≤ w.start := by
  obtain ⟨before, after, -, here⟩ := follow.lines_eq member
  omega

theorem Follow.stop_lt {start : Int} {ws : List Window} (follow : Follow start ws) {w : Window}
    (member : w ∈ ws) : w.stop < start + (ws.flatMap (·.lines)).length := by
  obtain ⟨before, after, whole, here⟩ := follow.lines_eq member
  rw [whole, List.length_append, List.length_append, stop]
  omega

theorem Follow.pairwise {start : Int} {ws : List Window} (follow : Follow start ws) :
    ws.Pairwise fun a b => a.stop < b.start := by
  induction ws generalizing start with
  | nil => exact List.Pairwise.nil
  | cons w rest ih =>
    obtain ⟨here, later⟩ := follow
    refine List.Pairwise.cons (fun other member => ?_) (ih later)
    have after := later.start_le member
    rw [stop]
    omega

theorem Follow.flatMap_bisect {start : Int} {ws : List Window} (follow : Follow start ws)
    (maxBytes : Int) : Follow start (ws.flatMap fun w => bisect maxBytes w.start w.lines) := by
  induction ws generalizing start with
  | nil => trivial
  | cons w rest ih =>
    obtain ⟨here, later⟩ := follow
    rw [List.flatMap_cons, follow_append, flatMap_lines_bisect, here]
    exact ⟨follow_bisect maxBytes start w.lines, ih later⟩

/-! ### Lines of windows -/

/-- A window of one line or more, none of which is cut. -/
structure IsPlain (w : Window) : Prop where
  filled : w.lines ≠ []
  clear : ∀ line ∈ w.lines, '\n' ∉ line.toList

theorem IsPlain.start_le_stop {w : Window} (plain : w.IsPlain) : w.start ≤ w.stop := by
  have some := List.length_pos_iff.mpr plain.filled
  rw [stop]
  omega

theorem IsPlain.splitOn_content {w : Window} (plain : w.IsPlain) :
    Text.splitOn '\n' w.content = w.lines :=
  Text.splitOn_unlines plain.clear plain.filled

theorem isPlain_of_splitOn (start : Int) (s : String) :
    (⟨start, Text.splitOn '\n' s⟩ : Window).IsPlain :=
  ⟨Text.splitOn_ne_nil '\n' s, fun _ member => Text.not_mem_of_mem_splitOn member⟩

theorem lines_ne_nil_of_mem_bisect {maxBytes start : Int} {lines : List String} {w : Window}
    (filled : lines ≠ []) (member : w ∈ bisect maxBytes start lines) : w.lines ≠ [] := by
  fun_induction bisect maxBytes start lines with
  | case1 start lines small =>
    rw [List.mem_singleton.mp member]
    exact filled
  | case2 start lines large middle first second =>
    have more : 2 ≤ lines.length := by
      simp only [Bool.or_eq_true, decide_eq_true_eq, not_or] at large
      omega
    rcases List.mem_append.mp member with left | right
    · apply first _ left
      apply List.ne_nil_of_length_pos
      rw [List.length_take]
      omega
    · apply second _ right
      apply List.ne_nil_of_length_pos
      rw [List.length_drop]
      omega

theorem IsPlain.of_mem_bisect {maxBytes : Int} {whole w : Window} (plain : whole.IsPlain)
    (member : w ∈ bisect maxBytes whole.start whole.lines) : w.IsPlain := by
  refine ⟨lines_ne_nil_of_mem_bisect plain.filled member, fun line inside => plain.clear line ?_⟩
  rw [← flatMap_lines_bisect maxBytes whole.start whole.lines]
  exact List.mem_flatMap.mpr ⟨w, member, inside⟩

/-- The texts of the parts of a window, joined, are the text of the window. -/
theorem unlines_map_content_bisect (maxBytes start : Int) {lines : List String}
    (filled : lines ≠ []) :
    Text.unlines ((bisect maxBytes start lines).map content) = Text.unlines lines := by
  have groups : (bisect maxBytes start lines).map content =
      ((bisect maxBytes start lines).map (·.lines)).map Text.unlines := by
    rw [List.map_map]
    rfl
  rw [groups, Text.unlines_map_unlines, ← List.flatMap_def, flatMap_lines_bisect]
  intro group member
  obtain ⟨w, part, rfl⟩ := List.mem_map.mp member
  exact lines_ne_nil_of_mem_bisect filled part

end Window

namespace Chunk

/-! ### Chunks as windows -/

def window (c : Chunk) : Window := ⟨c.startLine, Text.splitOn '\n' c.content⟩

theorem isPlain_window (c : Chunk) : c.window.IsPlain := Window.isPlain_of_splitOn ..

theorem content_window (c : Chunk) : c.window.content = c.content := Text.unlines_splitOn c.content

/-- A chunk has the id of its lines, and ends with the last one of them. -/
structure IsExact (c : Chunk) : Prop where
  id : c.id = idOf c.path c.startLine c.endLine
  endLine : c.endLine = c.window.stop

theorem IsExact.le {c : Chunk} (exact' : c.IsExact) : c.startLine ≤ c.endLine := by
  rw [exact'.endLine]
  exact (isPlain_window c).start_le_stop

variable {path language parser : String} {kind : ChunkKind} {name : Option String}

theorem window_chunk {w : Window} (plain : w.IsPlain) :
    (w.chunk path language kind parser name).window = w := by
  have lines : Text.splitOn '\n' w.content = w.lines := plain.splitOn_content
  exact congrArg (Window.mk w.start) lines

theorem isExact_chunk {w : Window} (plain : w.IsPlain) :
    (w.chunk path language kind parser name).IsExact :=
  ⟨rfl, by rw [window_chunk plain]; rfl⟩

theorem length_partNames (name : Option String) (parts : List Window) :
    (partNames name parts).length = parts.length := by
  cases parts with
  | nil => rfl
  | cons w rest => simp [partNames]

theorem bisect_of_fits {maxBytes : Int} {c : Chunk}
    (fits : (Text.Utf8.size c.content : Int) ≤ maxBytes) :
    Window.bisect maxBytes c.startLine (Text.splitOn '\n' c.content) = [c.window] := by
  rw [Window.bisect, if_pos]
  · rfl
  · rw [Text.unlines_splitOn, Bool.or_eq_true, decide_eq_true_eq]
    exact .inr (decide_eq_true fits)

theorem map_window_underCeiling (maxBytes : Int) (c : Chunk) :
    (underCeiling maxBytes c).map window =
      Window.bisect maxBytes c.startLine (Text.splitOn '\n' c.content) := by
  unfold underCeiling
  split
  · rename_i fits
    rw [bisect_of_fits fits, List.map_singleton]
  · simp only
    generalize parts : Window.bisect maxBytes c.startLine (Text.splitOn '\n' c.content) = ws
    have plain : ∀ w ∈ ws, w.IsPlain := fun w member =>
      (isPlain_window c).of_mem_bisect (by rwa [← parts] at member)
    rw [List.map_map, List.map_congr_left (g := Prod.fst),
      List.map_fst_zip (length_partNames c.name ws).ge]
    rintro ⟨w, name⟩ pair
    exact window_chunk (plain w (List.of_mem_zip pair).1)

theorem IsExact.of_mem_underCeiling {maxBytes : Int} {whole c : Chunk} (exact' : whole.IsExact)
    (member : c ∈ underCeiling maxBytes whole) : c.IsExact := by
  unfold underCeiling at member
  split at member
  · rw [List.mem_singleton.mp member]
    exact exact'
  · obtain ⟨⟨w, name⟩, pair, rfl⟩ := List.mem_map.mp member
    exact isExact_chunk ((isPlain_window whole).of_mem_bisect (List.of_mem_zip pair).1)

theorem unlines_map_content_underCeiling (maxBytes : Int) (c : Chunk) :
    Text.unlines ((underCeiling maxBytes c).map (·.content)) = c.content := by
  have texts : (underCeiling maxBytes c).map (·.content) =
      ((underCeiling maxBytes c).map window).map Window.content := by
    rw [List.map_map]
    exact List.map_congr_left fun part _ => (content_window part).symm
  rw [texts, map_window_underCeiling,
    Window.unlines_map_content_bisect _ _ (Text.splitOn_ne_nil '\n' c.content),
    Text.unlines_splitOn]

/-! ### Text without a known structure -/

theorem follow_fill {limits : WindowLimits} {start : Int} (lines : List String)
    {done : List Window} {w : OpenWindow} (counted : w.count = w.held.length)
    (follow : Window.Follow start done.reverse)
    (next : w.start = start + (done.reverse.flatMap (·.lines)).length) :
    Window.Follow start (fill limits done w lines) := by
  have closes (done : List Window) (w : OpenWindow) (follow : Window.Follow start done.reverse)
      (next : w.start = start + (done.reverse.flatMap (·.lines)).length) :
      Window.Follow start (w.close :: done).reverse := by
    rw [List.reverse_cons, Window.follow_append]
    exact ⟨follow, next, trivial⟩
  -- The open window begins after all lines of the closed ones, whether the line is held in it or
  -- closes it and opens the next one.
  induction lines generalizing done w with
  | nil =>
    rw [fill]
    split
    · exact follow
    · exact closes done w follow next
  | cons line rest ih =>
    rw [fill]
    simp only
    split
    · refine ih rfl (closes done ⟨w.start, line :: w.held, w.count + 1, _⟩ follow next) ?_
      rw [List.reverse_cons, List.flatMap_append, List.length_append, next]
      simp only [OpenWindow.close, List.flatMap_singleton, List.length_reverse, List.length_cons,
        counted]
      omega
    · exact ih (by simp [counted]) follow next

theorem lines_ne_nil_of_mem_fill {limits : WindowLimits} (lines : List String)
    {done : List Window} {w : OpenWindow} (counted : w.count = w.held.length)
    (filled : ∀ other ∈ done, other.lines ≠ []) {found : Window}
    (member : found ∈ fill limits done w lines) : found.lines ≠ [] := by
  induction lines generalizing done w with
  | nil =>
    rw [fill, List.mem_reverse] at member
    split at member
    · exact filled found member
    · rename_i some
      rcases List.mem_cons.mp member with here | before
      · rw [here]
        apply List.ne_nil_of_length_pos
        rw [OpenWindow.close, List.length_reverse]
        omega
      · exact filled found before
  | cons line rest ih =>
    rw [fill] at member
    simp only at member
    split at member
    · refine ih rfl (fun other among => ?_) member
      rcases List.mem_cons.mp among with here | before
      · rw [here]
        simp [OpenWindow.close]
      · exact filled other before
    · exact ih (by simp [counted]) filled member

end Chunk
end SourceIndex
