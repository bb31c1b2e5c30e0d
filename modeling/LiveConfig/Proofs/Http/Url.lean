import LiveConfig.Http.Url
import LiveConfig.Proofs.Text.Percent
import LiveConfig.Proofs.Text.Split

/-!
# Http — Url

Addresses below a common one.  What is added behind the path of an address, if it is made of plain
characters, leaves the rest of the address as it is: the host and the names of the path are found
where they were (`parse?_behind`), and the request goes to a target that is longer by just what was
added, escaped where needed (`exists_target`).  Behind a query or a number sign nothing of the kind
holds.
-/

namespace LiveConfig.Http.Url

open Text (percentEncode pieces joined takeWhile_stop dropWhile_stop ne_of_not_mem
  drop_one_append)

/-! ### Plain characters -/

/-- A letter, a digit, a hyphen or an underscore. All that is not ASCII counts as a letter. -/
def isWord (c : Char) : Bool := c.isAlphanum || c == '-' || c == '_' || 0x80 ≤ c.toNat

/-- A text of letters, digits, hyphens, underscores and slashes. -/
def IsPlain (cs : List Char) : Prop := ∀ c ∈ cs, isWord c = true ∨ c = '/'

instance (cs : List Char) : Decidable (IsPlain cs) :=
  List.decidableBAll (fun c => isWord c = true ∨ c = '/') cs

theorem isWord_ne {c d : Char} (h : isWord c = true) (hd : isWord d = false) : c ≠ d := by
  rintro rfl
  rw [h] at hd
  cases hd

/-- A statement about characters that is checked on all of ASCII. -/
theorem of_ascii {P : Char → Prop} (hP : ∀ n < 0x80, P (Char.ofNat n)) {c : Char}
    (h : c.toNat < 0x80) : P c := by
  have hc := hP c.toNat h
  rwa [Char.ofNat_toNat] at hc

theorem isPath_of_isWord {c : Char} (hlt : c.toNat < 0x80) (h : isWord c = true) :
    isPath c = true := by
  exact of_ascii (P := fun c => isWord c = true → isPath c = true) (by decide) hlt h

theorem isEdge_of_isWord {c : Char} (h : isWord c = true) : isEdge c = false := by
  by_cases hlt : c.toNat < 0x80
  · exact of_ascii (P := fun c => isWord c = true → Url.isEdge c = false) (by decide) hlt h
  · refine decide_eq_false fun hle => hlt ?_
    have hle : c.toNat ≤ 32 := hle
    omega

variable {cs ds : List Char}

theorem isPlain_cons {c : Char} : IsPlain (c :: cs) ↔ (isWord c = true ∨ c = '/') ∧ IsPlain cs :=
  List.forall_mem_cons

theorem IsPlain.append (hc : IsPlain cs) (hd : IsPlain ds) : IsPlain (cs ++ ds) :=
  fun c h => (List.mem_append.mp h).elim (hc c) (hd c)

theorem IsPlain.slash (h : IsPlain cs) : IsPlain ('/' :: cs) := isPlain_cons.mpr ⟨.inr rfl, h⟩

/-- No sign with a meaning of its own is in a plain text. -/
theorem IsPlain.not_mem (h : IsPlain cs) {d : Char} (hd : isWord d = false) (hslash : d ≠ '/') :
    d ∉ cs := by
  intro hmem
  rcases h d hmem with hw | rfl
  · exact isWord_ne hw hd rfl
  · exact hslash rfl

theorem IsPlain.isEdge (h : IsPlain cs) {c : Char} (hc : c ∈ cs) : isEdge c = false := by
  rcases h c hc with hw | rfl
  · exact isEdge_of_isWord hw
  · rfl

theorem IsPlain.isSkipped (h : IsPlain cs) {c : Char} (hc : c ∈ cs) : isSkipped c = false := by
  rcases h c hc with hw | rfl
  · unfold Url.isSkipped
    simp only [Bool.or_eq_false_iff, beq_eq_false_iff_ne]
    exact ⟨⟨isWord_ne hw rfl, isWord_ne hw rfl⟩, isWord_ne hw rfl⟩
  · rfl

theorem not_mem_escaped (h : IsPlain cs) {d : Char} (hd : isWord d = false) (hslash : d ≠ '/')
    (hescape : d ≠ '%') (hhex : Text.isHex d = false) : d ∉ percentEncode isPath cs := by
  intro hmem
  rcases Text.mem_percentEncode hmem with ⟨hc, -⟩ | hc | hc
  · exact h.not_mem hd hslash hc
  · exact hescape hc
  · rw [hhex] at hc
    cases hc

/-! ### Reading -/

/-- The address without what is skipped. -/
def cleaned (cs : List Char) : List Char :=
  ((cs.dropWhile isEdge).reverse.dropWhile isEdge).reverse.filter (!isSkipped ·)

/-- The address behind its scheme. -/
def behindScheme? (rest : List Char) : Option Url :=
  let rest := rest.dropWhile isSlash
  let isHost (c : Char) := !isSlash c && c != '?' && c != '#'
  let host := behindUser (rest.takeWhile isHost)
  if host.isEmpty || !isServiceNumber ((host.dropWhile (· != ':')).drop 1) then none
  else
    let rest := (rest.dropWhile isHost).takeWhile (· != '#')
    let path := rest.takeWhile (· != '?')
    let query :=
      match rest.dropWhile (· != '?') with
      | _ :: query => some (String.ofList (percentEncode isQuery query))
      | [] => none
    some ⟨String.ofList host, pathNames (path.drop 1), query⟩

theorem parse?_eq (s : String) :
    parse? s = (scheme? (cleaned s.toList)).bind fun found =>
      if found.1 ≠ "http" ∧ found.1 ≠ "https" then none else behindScheme? found.2 := rfl

/-- What is plain stays, at the end of an address. -/
theorem cleaned_behind (base : List Char) (h : IsPlain cs) :
    cleaned (base ++ '/' :: cs) =
      (base.dropWhile isEdge).filter (!isSkipped ·) ++ '/' :: cs := by
  have hplain := h.slash
  have hend : ((base.dropWhile isEdge ++ '/' :: cs).reverse.dropWhile isEdge).reverse =
      base.dropWhile isEdge ++ '/' :: cs := by
    refine List.rdropWhile_eq_self_iff.mpr fun hne => ?_
    rw [List.getLast_append_of_ne_nil hne (List.cons_ne_nil _ _),
      hplain.isEdge (List.getLast_mem _)]
    exact Bool.false_ne_true
  have hkept : ('/' :: cs).filter (!isSkipped ·) = '/' :: cs :=
    List.filter_eq_self.mpr fun c hc => by rw [hplain.isSkipped hc]; rfl
  have hstop : isEdge '/' = false := rfl
  rw [cleaned, dropWhile_stop hstop, hend, List.filter_append, hkept]

theorem scheme?_colon {before : List Char} (h : ':' ∉ before) (rest : List Char) :
    scheme? (before ++ ':' :: rest) =
      some (String.ofList (before.map Char.toLower), rest) := by
  have hne := ne_of_not_mem h
  have htake : (before ++ ':' :: rest).takeWhile (· != ':') = before := by
    rw [takeWhile_stop (by rfl), List.takeWhile_eq_self_iff.mpr hne]
  have hdrop : (before ++ ':' :: rest).dropWhile (· != ':') = ':' :: rest := by
    rw [dropWhile_stop (by rfl), List.dropWhile_eq_nil_iff.mpr hne, List.nil_append]
  simp only [scheme?, htake, hdrop]

theorem scheme?_none (h : ':' ∉ cs) : scheme? cs = none := by
  simp only [scheme?]
  rw [List.dropWhile_eq_nil_iff.mpr (ne_of_not_mem h)]

/-- What has no colon is no part of the scheme. -/
theorem scheme?_append (cs : List Char) (h : ':' ∉ ds) :
    scheme? (cs ++ ds) = (scheme? cs).map fun found => (found.1, found.2 ++ ds) := by
  by_cases hmem : ':' ∈ cs
  · obtain ⟨before, rest, rfl, hbefore⟩ := List.eq_append_cons_of_mem hmem
    rw [List.append_assoc, List.cons_append, scheme?_colon hbefore, scheme?_colon hbefore,
      Option.map_some]
  · rw [scheme?_none hmem, scheme?_none, Option.map_none]
    exact fun h' => (List.mem_append.mp h').elim hmem h

theorem mem_of_scheme? {scheme : String} {rest : List Char} (h : scheme? cs = some (scheme, rest))
    {c : Char} (hc : c ∈ rest) : c ∈ cs := by
  simp only [scheme?] at h
  split at h
  · rename_i d found hfound
    cases h
    refine (List.dropWhile_suffix (· != ':')).subset ?_
    rw [hfound]
    exact List.mem_cons_of_mem _ hc
  · cases h

/-- **The host and the start of the path** are found where they were, whatever plain text comes
behind a first name. -/
theorem behindScheme?_behind {base name : List Char} (hne : name ≠ [])
    (hname : ∀ c ∈ name, isWord c = true) (hquery : '?' ∉ base) (hmark : '#' ∉ base) :
    ∃ found : Option (String × List Char), ∀ rest, IsPlain rest →
      behindScheme? (base ++ '/' :: (name ++ '/' :: rest)) =
        found.map fun f => ⟨f.1, pathNames (f.2 ++ rest), none⟩ := by
  obtain ⟨c, name, rfl⟩ := List.exists_cons_of_ne_nil hne
  have hc : isSlash c = false := by
    have hw := hname c List.mem_cons_self
    simp only [isSlash, Bool.or_eq_false_iff, beq_eq_false_iff_ne]
    exact ⟨isWord_ne hw rfl, isWord_ne hw rfl⟩
  -- what comes before the slash behind the first name
  let front := (base ++ ['/']).dropWhile isSlash ++ c :: name
  have hfront : ∀ rest, (base ++ '/' :: (c :: name ++ '/' :: rest)).dropWhile isSlash =
      front ++ '/' :: rest := by
    intro rest
    have hsplit : base ++ '/' :: (c :: name ++ '/' :: rest) =
        (base ++ ['/']) ++ c :: (name ++ '/' :: rest) := by simp
    rw [hsplit, dropWhile_stop hc, List.append_assoc, List.cons_append]
  have hsigns : ∀ d, isWord d = false → d ≠ '/' → d ∉ base → d ∉ front := by
    intro d hd hslash hbase hmem
    rcases List.mem_append.mp hmem with hmem | hmem
    · rcases List.mem_append.mp ((List.dropWhile_suffix isSlash).subset hmem) with h | h
      · exact hbase h
      · exact hslash (List.mem_singleton.mp h)
    · exact isWord_ne (hname d hmem) hd rfl
  let isHost (d : Char) := !isSlash d && d != '?' && d != '#'
  have hstop : isHost '/' = false := rfl
  let host := behindUser (front.takeWhile isHost)
  let path := front.dropWhile isHost
  refine ⟨if host.isEmpty || !isServiceNumber ((host.dropWhile (· != ':')).drop 1) then none
    else some (String.ofList host, (path ++ ['/']).drop 1), fun rest hrest => ?_⟩
  -- no query and no number sign follows the host
  have hpath : ∀ d, isWord d = false → d ≠ '/' → d ∉ base → d ∉ path ++ '/' :: rest := by
    intro d hd hslash hbase hmem
    rcases List.mem_append.mp hmem with hmem | hmem
    · exact hsigns d hd hslash hbase ((List.dropWhile_suffix isHost).subset hmem)
    · exact hrest.slash.not_mem hd hslash hmem
  have hno := ne_of_not_mem (hpath '?' rfl (by decide) hquery)
  have hno' := ne_of_not_mem (hpath '#' rfl (by decide) hmark)
  simp only [behindScheme?, hfront]
  rw [takeWhile_stop hstop, dropWhile_stop hstop, List.takeWhile_eq_self_iff.mpr hno',
    List.takeWhile_eq_self_iff.mpr hno, List.dropWhile_eq_nil_iff.mpr hno, drop_one_append]
  split <;> rfl

/-- **Addresses below a common one** differ in the names of their paths only. -/
theorem parse?_behind {base name : List Char} (hne : name ≠ [])
    (hname : ∀ c ∈ name, isWord c = true) (hquery : '?' ∉ base) (hmark : '#' ∉ base) :
    ∃ found : Option (String × List Char), ∀ rest, IsPlain rest →
      parse? (String.ofList (base ++ '/' :: (name ++ '/' :: rest))) =
        found.map fun f => ⟨f.1, pathNames (f.2 ++ rest), none⟩ := by
  have hplain : ∀ rest, IsPlain rest → IsPlain (name ++ '/' :: rest) :=
    fun rest hrest => IsPlain.append (fun c hc => .inl (hname c hc)) hrest.slash
  let front := (base.dropWhile isEdge).filter (!isSkipped ·)
  have hfront : ∀ d, d ∈ front → d ∈ base :=
    fun d hd => (List.dropWhile_suffix isEdge).subset (List.mem_of_mem_filter hd)
  have hparse : ∀ rest, IsPlain rest →
      parse? (String.ofList (base ++ '/' :: (name ++ '/' :: rest))) =
        (scheme? front).bind fun found => if found.1 ≠ "http" ∧ found.1 ≠ "https" then none
          else behindScheme? (found.2 ++ '/' :: (name ++ '/' :: rest)) := by
    intro rest hrest
    have h := hplain rest hrest
    rw [parse?_eq, String.toList_ofList, cleaned_behind base h,
      scheme?_append _ (h.slash.not_mem rfl (by decide)), Option.bind_map]
    rfl
  cases hs : scheme? front with
  | none => exact ⟨none, fun rest hrest => by rw [hparse rest hrest, hs]; rfl⟩
  | some found =>
      obtain ⟨scheme, start⟩ := found
      by_cases hscheme : scheme ≠ "http" ∧ scheme ≠ "https"
      · refine ⟨none, fun rest hrest => ?_⟩
        rw [hparse rest hrest, hs, Option.bind_some, if_pos hscheme, Option.map_none]
      · obtain ⟨found, hfound⟩ := behindScheme?_behind hne hname
          (fun h => hquery (hfront _ (mem_of_scheme? hs h)))
          (fun h => hmark (hfront _ (mem_of_scheme? hs h)))
        refine ⟨found, fun rest hrest => ?_⟩
        rw [hparse rest hrest, hs, Option.bind_some, if_neg hscheme, hfound rest hrest]

/-! ### Paths -/

/-- The name leads up or nowhere. -/
def IsPoints (name : List Char) : Prop :=
  unescapedPoints name = ['.'] ∨ unescapedPoints name = ['.', '.']

theorem unescapedPoints_cons {c : Char} (h : c ≠ '%') (rest : List Char) :
    unescapedPoints (c :: rest) = c :: unescapedPoints rest := by
  rw [unescapedPoints]
  · intro more hc
    exact absurd hc h
  · intro more hc
    exact absurd hc h

theorem unescapedPoints_octet {high : Char} (h : high ≠ '2') (rest : List Char) :
    unescapedPoints ('%' :: high :: rest) = '%' :: unescapedPoints (high :: rest) := by
  rw [unescapedPoints]
  · intro more _ heq
    cases heq
    exact absurd rfl h
  · intro more _ heq
    cases heq
    exact absurd rfl h

/-- The first octet of a character that is not ASCII is a high one. -/
theorem exists_high_octet {c : Char} (h : 0x80 ≤ c.toNat) :
    ∃ b bytes, Text.Utf8.encodeChar c = b :: bytes ∧ 0xC0 ≤ b.toNat := by
  have hvalid : c.toNat < 0xD800 ∨ 0xDFFF < c.toNat ∧ c.toNat < 0x110000 := c.valid
  generalize hn : c.toNat = n at h hvalid
  simp only [Text.Utf8.encodeChar, hn, if_neg (Nat.not_lt.mpr h)]
  split
  · refine ⟨_, _, rfl, ?_⟩
    rw [Text.Utf8.toNat_octet (by omega)]
    omega
  split
  · refine ⟨_, _, rfl, ?_⟩
    rw [Text.Utf8.toNat_octet (by omega)]
    omega
  · refine ⟨_, _, rfl, ?_⟩
    rw [Text.Utf8.toNat_octet (by omega)]
    omega

/-- **A name of letters, digits, hyphens and underscores** leads neither up nor nowhere. -/
theorem not_isPoints (h : ∀ c ∈ cs, isWord c = true) : ¬ IsPoints (percentEncode isPath cs) := by
  suffices hhead : (unescapedPoints (percentEncode isPath cs)).head? ≠ some '.' by
    rintro (heq | heq) <;> exact hhead (by rw [heq]; rfl)
  cases cs with
  | nil => simp [percentEncode, unescapedPoints]
  | cons c rest =>
      have hc := h c List.mem_cons_self
      rw [Text.percentEncode_cons]
      by_cases hlt : c.toNat < 0x80
      · rw [Text.percentEncode_kept (isPath_of_isWord hlt hc), List.singleton_append,
          unescapedPoints_cons (isWord_ne hc rfl), List.head?_cons, Ne, Option.some.injEq]
        exact isWord_ne hc rfl
      · have hkeep : isPath c = false := by
          refine Bool.eq_false_iff.mpr fun hp => hlt ?_
          simp only [isPath, isPrinted, Bool.and_eq_true, decide_eq_true_eq] at hp
          have hle : c.toNat ≤ 126 := hp.1.2
          omega
        obtain ⟨b, bytes, hb, hhigh⟩ := exists_high_octet (Nat.not_lt.mp hlt)
        have hne : Text.hexDigit (b.toNat / 16) ≠ '2' := by
          have hall : ∀ n < 16, 12 ≤ n → Text.hexDigit n ≠ '2' := by decide
          have hlt := b.toNat_lt
          exact hall _ (by omega) (by omega)
        rw [Text.percentEncode_escaped hkeep, hb, List.flatMap_cons]
        simp only [Text.escapedOctet, List.cons_append]
        rw [unescapedPoints_octet hne]
        simp

/-- Names before others only settle what is above these. -/
theorem walk_append (above names : List (List Char)) :
    ∃ above', ∀ more, more ≠ [] → walk above (names ++ more) = walk above' more := by
  induction names generalizing above with
  | nil => exact ⟨above, fun more _ => rfl⟩
  | cons name names ih =>
      let next : List (List Char) :=
        if unescapedPoints name = ['.', '.'] then
          (if (above.head?.map isDrive).getD false then above else above.drop 1)
        else if unescapedPoints name = ['.'] then above
        else name :: above
      obtain ⟨above', h⟩ := ih next
      refine ⟨above', fun more hmore => ?_⟩
      have hempty : (names ++ more).isEmpty = false := by
        rw [List.isEmpty_eq_false_iff]
        exact List.append_ne_nil_of_right_ne_nil names hmore
      rw [List.cons_append, walk]
      simp only [hempty, Bool.false_and, Bool.false_eq_true, if_false]
      exact h more hmore

theorem walk_names (above : List (List Char)) {names : List (List Char)}
    (h : ∀ name ∈ names, ¬ IsPoints name) : walk above names = names.reverse ++ above := by
  induction names generalizing above with
  | nil => rfl
  | cons name names ih =>
      obtain ⟨hone, htwo⟩ := not_or.mp (h name List.mem_cons_self)
      rw [walk]
      simp only [hone, htwo, decide_false, Bool.or_self, Bool.and_false, Bool.false_eq_true,
        if_false]
      rw [ih _ fun name' hname' => h name' (List.mem_cons_of_mem _ hname'), List.reverse_cons,
        List.append_assoc, List.singleton_append]

/-- **The names behind a path** are those that the text behind it is cut into. -/
theorem pathNames_behind (path : List Char) :
    ∃ names : List String, ∀ rest, IsPlain rest → pathNames (path ++ '/' :: rest) =
      names ++ ((pieces '/' rest).map (percentEncode isPath)).map String.ofList := by
  let slashed (cs : List Char) := cs.map fun c => if isSlash c then '/' else c
  obtain ⟨above, habove⟩ :=
    walk_append [] ((pieces '/' (slashed path)).map (percentEncode isPath))
  refine ⟨above.reverse.map String.ofList, fun rest hrest => ?_⟩
  have hself : slashed ('/' :: rest) = '/' :: rest := by
    refine (List.map_congr_left fun c hc => ?_).trans (List.map_id _)
    rcases hrest.slash c hc with hw | rfl
    · have hno : isSlash c = false := by
        simp only [isSlash, Bool.or_eq_false_iff, beq_eq_false_iff_ne]
        exact ⟨isWord_ne hw rfl, isWord_ne hw rfl⟩
      simp only [hno, Bool.false_eq_true, if_false, id]
    · rfl
  have hnames : ∀ name ∈ (pieces '/' rest).map (percentEncode isPath), ¬ IsPoints name := by
    intro name hname
    obtain ⟨piece, hpiece, rfl⟩ := List.mem_map.mp hname
    refine not_isPoints fun c hc => ?_
    have hmem : c ∈ rest := Text.joined_pieces '/' rest ▸ Text.mem_joined hpiece hc
    refine (hrest c hmem).resolve_right fun hslash => ?_
    exact Text.not_mem_pieces hpiece (hslash ▸ hc)
  have hne : (pieces '/' rest).map (percentEncode isPath) ≠ [] := by
    simp [Text.pieces_ne_nil]
  have hcut : pieces '/' (slashed (path ++ '/' :: rest)) =
      pieces '/' (slashed path) ++ pieces '/' rest := by
    have happ : slashed (path ++ '/' :: rest) = slashed path ++ slashed ('/' :: rest) :=
      List.map_append
    rw [happ, hself, Text.pieces_append]
  unfold pathNames
  simp only [slashed] at hcut habove
  simp only [hcut]
  rw [List.map_append, habove _ hne, walk_names above hnames, List.reverse_append,
    List.reverse_reverse, List.map_append]

/-! ### Targets -/

/-- What stands behind the path of a target. -/
def querySuffix (query : Option String) : List Char := ((query.map ("?" ++ ·)).getD "").toList

theorem toList_target (u : Url) :
    u.target.toList = '/' :: joined '/' (u.path.map String.toList) ++ querySuffix u.query := by
  unfold target querySuffix
  rw [String.toList_append, String.toList_append, String.toList_intercalate,
    ← Text.intercalate_eq_joined]
  rfl

theorem takeWhile_querySuffix (h : '?' ∉ cs) (query : Option String) :
    (cs ++ querySuffix query).takeWhile (· != '?') = cs := by
  cases query with
  | none => simpa [querySuffix] using ne_of_not_mem h
  | some q =>
      have hsuffix : querySuffix (some q) = '?' :: q.toList := by
        simp [querySuffix]
      rw [hsuffix, takeWhile_stop (by rfl), List.takeWhile_eq_self_iff.mpr (ne_of_not_mem h)]

/-- Parameters change nothing but the query. -/
theorem exists_withParams (u : Url) (params : List (String × String)) :
    ∃ query, params.foldl (fun u p => u.withParam p.1 p.2) u = { u with query := query } := by
  induction params generalizing u with
  | nil => exact ⟨u.query, rfl⟩
  | cons p params ih =>
      obtain ⟨query, h⟩ := ih (u.withParam p.1 p.2)
      exact ⟨query, h⟩

/-- **Requests below a common address** go to targets that start with the target of this address;
what follows, up to the query, is what was added to it, escaped. -/
theorem exists_target {base name dir : List Char} (hne : name ≠ [])
    (hname : ∀ c ∈ name, isWord c = true) (hdir : ∀ c ∈ dir, isWord c = true)
    (hquery : '?' ∉ base) (hmark : '#' ∉ base) {above : Url}
    (habove : parse? (String.ofList (base ++ '/' :: (name ++ '/' :: (dir ++ ['/'])))) = some above)
    {rest : List Char} (hrest : IsPlain rest) :
    ∃ u, parse? (String.ofList (base ++ '/' :: (name ++ '/' :: (dir ++ '/' :: rest)))) = some u ∧
      ∀ query, { u with query := query }.target.toList =
        above.target.toList ++ (percentEncode isPath rest ++ querySuffix query) := by
  obtain ⟨found, hfound⟩ := parse?_behind hne hname hquery hmark
  have hplain : ∀ more, IsPlain more → IsPlain (dir ++ '/' :: more) :=
    fun more hmore => IsPlain.append (fun c hc => .inl (hdir c hc)) hmore.slash
  have hnil : IsPlain [] := fun _ h => (List.not_mem_nil h).elim
  rw [hfound _ (hplain [] hnil)] at habove
  obtain ⟨⟨host, path⟩, rfl, rfl⟩ := Option.map_eq_some_iff.mp habove
  obtain ⟨names, hnames⟩ := pathNames_behind (path ++ dir)
  have hpath : ∀ more, IsPlain more → pathNames (path ++ (dir ++ '/' :: more)) =
      names ++ ((pieces '/' more).map (percentEncode isPath)).map String.ofList := by
    intro more hmore
    rw [← hnames more hmore, List.append_assoc]
  have hjoint : ∀ more, joined '/' ((names ++
      ((pieces '/' more).map (percentEncode isPath)).map String.ofList).map String.toList) =
        joined '/' (names.map String.toList ++ [[]]) ++ percentEncode isPath more := by
    intro more
    have hpieces : (((pieces '/' more).map (percentEncode isPath)).map String.ofList).map
        String.toList = (pieces '/' more).map (percentEncode isPath) := by
      rw [List.map_map]
      exact (List.map_congr_left fun cs _ => String.toList_ofList).trans (List.map_id _)
    rw [List.map_append, hpieces, Text.joined_append, Text.joined_percentEncode (by rfl),
      Text.joined_pieces]
    simp [Text.pieces_ne_nil]
  refine ⟨_, by rw [hfound _ (hplain rest hrest), Option.map_some], fun query => ?_⟩
  rw [toList_target, toList_target]
  simp only [hpath rest hrest, hpath [] hnil, hjoint]
  simp [querySuffix, percentEncode]

end LiveConfig.Http.Url
