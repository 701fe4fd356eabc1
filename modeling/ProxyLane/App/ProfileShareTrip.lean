import ProxyLane.App.ProfileShareCodec

/-!
# What a profile code stands for

The callback accepts a text if no object names a key twice and nothing lies
inside more than eight arrays and objects; the encoder does not look at the
depth.  Behind an accepted code is one JSON text, and the comparison with the
beginning of other versions never holds, since it is one character short.
-/

namespace ProxyLane.App.ProfileShare

open ProxyLane.Foundation

variable {φ : Type}

/-! ## Depth and keys -/

mutual

def within : Nat → Value φ → Bool
  | n, .array items => withinItems n items
  | n, .object fields => withinFields n fields
  | _, .null | _, .boolean _ | _, .integer _ | _, .float _ | _, .string _ => true

def withinItems : Nat → List (Value φ) → Bool
  | _, [] => true
  | 0, _ :: _ => false
  | n + 1, v :: rest => within n v && withinItems (n + 1) rest

def withinFields : Nat → List (Bytes × Value φ) → Bool
  | _, [] => true
  | 0, _ :: _ => false
  | n + 1, (_, v) :: rest => within n v && withinFields (n + 1) rest

end

def keysOf (fields : List (Bytes × Value φ)) : List Bytes := fields.map Prod.fst

@[simp] theorem keysOf_nil : keysOf ([] : List (Bytes × Value φ)) = [] := rfl

@[simp] theorem keysOf_cons (field : Bytes × Value φ)
    (fields : List (Bytes × Value φ)) :
    keysOf (field :: fields) = field.1 :: keysOf fields := rfl

mutual

def distinct : Value φ → Bool
  | .array items => distinctItems items
  | .object fields => (keysOf fields).Nodup && distinctFields fields
  | .null | .boolean _ | .integer _ | .float _ | .string _ => true

def distinctItems : List (Value φ) → Bool
  | [] => true
  | v :: rest => distinct v && distinctItems rest

def distinctFields : List (Bytes × Value φ) → Bool
  | [] => true
  | (_, v) :: rest => distinct v && distinctFields rest

end

theorem watch_deep (v : Value φ) {depth : Nat} (keys : List (List Bytes))
    (rest : List Event) (h : 8 < depth) :
    watch keys (events depth v ++ rest) = fail "share.invalid_fields" := by
  cases v <;> simp [events, watch, Event.depth, h]

theorem nodup_append_cons {seen : List Bytes} {key : Bytes} (keys : List Bytes)
    (h : key ∈ seen) :
    ¬ (keys ++ key :: seen).Nodup := by
  rw [List.nodup_append]
  rintro ⟨-, hnodup, -⟩
  exact (List.nodup_cons.1 hnodup).1 h

mutual

theorem watch_events (v : Value φ) {n depth : Nat} (keys : List (List Bytes))
    (rest : List Event) (h : depth + n = 8) :
    watch keys (events depth v ++ rest) =
      if within n v && distinct v then watch keys rest
      else fail "share.invalid_fields" := by
  have hdepth : ¬ 8 < depth := by omega
  cases v with
  | null => simp [events, watch, Event.depth, hdepth, within, distinct]
  | boolean b => simp [events, watch, Event.depth, hdepth, within, distinct]
  | integer i => simp [events, watch, Event.depth, hdepth, within, distinct]
  | float x => simp [events, watch, Event.depth, hdepth, within, distinct]
  | string s => simp [events, watch, Event.depth, hdepth, within, distinct]
  | array items =>
    have hitems := watch_itemEvents items keys (.arrayEnd depth :: rest) h
    simp [events, watch, Event.depth, hdepth, within, distinct, hitems]
  | object fields =>
    have hfields := watch_fieldEvents fields [] keys (.objectEnd depth :: rest) h
      List.nodup_nil
    simp [events, watch, Event.depth, hdepth, within, distinct, hfields,
      Bool.and_assoc, and_comm]

theorem watch_itemEvents (items : List (Value φ)) {n depth : Nat}
    (keys : List (List Bytes)) (rest : List Event) (h : depth + n = 8) :
    watch keys (itemEvents (depth + 1) items ++ rest) =
      if withinItems n items && distinctItems items then watch keys rest
      else fail "share.invalid_fields" := by
  match items, n with
  | [], _ => simp [itemEvents, withinItems, distinctItems]
  | v :: more, 0 =>
    simp [itemEvents, withinItems, watch_deep v keys _ (by omega : 8 < depth + 1)]
  | v :: more, n + 1 =>
    have hinner : depth + 1 + n = 8 := by omega
    have hv := watch_events v keys (itemEvents (depth + 1) more ++ rest) hinner
    have hmore := watch_itemEvents more keys rest h
    cases hwithin : within n v <;> cases hdistinct : distinct v <;>
      simp [itemEvents, withinItems, distinctItems, hv, hmore, hwithin, hdistinct]

theorem watch_fieldEvents (fields : List (Bytes × Value φ)) {n depth : Nat}
    (seen : List Bytes) (keys : List (List Bytes)) (rest : List Event)
    (h : depth + n = 8) (hseen : seen.Nodup) :
    watch (seen :: keys) (fieldEvents (depth + 1) fields ++ rest) =
      if withinFields n fields && distinctFields fields &&
          ((keysOf fields).reverse ++ seen).Nodup then
        watch (((keysOf fields).reverse ++ seen) :: keys) rest
      else fail "share.invalid_fields" := by
  match fields, n with
  | [], _ => simp [fieldEvents, withinFields, distinctFields, hseen]
  | (key, v) :: more, 0 =>
    simp [fieldEvents, withinFields, watch, Event.depth, (by omega : 8 < depth + 1)]
  | (key, v) :: more, n + 1 =>
    by_cases hkey : key ∈ seen
    case pos =>
      have hdepth : ¬ 8 < depth + 1 := by omega
      have hnodup := fun earlier => nodup_append_cons earlier hkey
      simp [fieldEvents, watch, Event.depth, hdepth, hkey, hnodup]
    case neg =>
      have hdepth : ¬ 8 < depth + 1 := by omega
      have hinner : depth + 1 + n = 8 := by omega
      have hv := watch_events v ((key :: seen) :: keys)
        (fieldEvents (depth + 1) more ++ rest) hinner
      have hmore := watch_fieldEvents more (key :: seen) keys rest h
        (List.nodup_cons.2 ⟨hkey, hseen⟩)
      cases hwithin : within n v <;> cases hdistinct : distinct v <;>
        simp [fieldEvents, watch, Event.depth, hdepth, hkey, withinFields,
          distinctFields, hv, hmore, hwithin, hdistinct]

end

theorem watch_tree (tree : Value φ) :
    watch [] (events 0 tree) = .ok () ↔
      within 8 tree = true ∧ distinct tree = true := by
  have h := watch_events tree [] [] (by omega : 0 + 8 = 8)
  rw [List.append_nil] at h
  cases hwithin : within 8 tree <;> cases hdistinct : distinct tree <;>
    simp [h, hwithin, hdistinct, watch, fail]

/-! ## Values of the library -/

mutual

def WellFormed : Value φ → Prop
  | .array items => WellFormedItems items
  | .object fields => (keysOf fields).Pairwise (· < ·) ∧ WellFormedFields fields
  | .null | .boolean _ | .integer _ | .float _ | .string _ => True

def WellFormedItems : List (Value φ) → Prop
  | [] => True
  | v :: rest => WellFormed v ∧ WellFormedItems rest

def WellFormedFields : List (Bytes × Value φ) → Prop
  | [] => True
  | (_, v) :: rest => WellFormed v ∧ WellFormedFields rest

end

theorem placeField_first {key : Bytes} {x : Value φ} {fields : List (Bytes × Value φ)}
    (h : ∀ other ∈ keysOf fields, key < other) :
    placeField key x fields = (key, x) :: fields := by
  cases fields with
  | nil => rfl
  | cons field rest =>
    have hlt : key < field.1 := h _ (by simp)
    simp [placeField, hlt]

mutual

theorem build_eq (v : Value φ) (h : WellFormed v) : build v = v := by
  cases v with
  | null => rfl
  | boolean b => rfl
  | integer n => rfl
  | float x => rfl
  | string s => rfl
  | array items => rw [build, buildItems_eq items (by simpa [WellFormed] using h)]
  | object fields =>
    rw [WellFormed] at h
    rw [build, buildFields_eq fields h.1 h.2]

theorem buildItems_eq (items : List (Value φ)) (h : WellFormedItems items) :
    buildItems items = items := by
  match items with
  | [] => rfl
  | v :: rest =>
    rw [WellFormedItems] at h
    rw [buildItems, build_eq v h.1, buildItems_eq rest h.2]

theorem buildFields_eq (fields : List (Bytes × Value φ))
    (hkeys : (keysOf fields).Pairwise (· < ·)) (h : WellFormedFields fields) :
    buildFields fields = fields := by
  match fields with
  | [] => rfl
  | (key, v) :: rest =>
    rw [WellFormedFields] at h
    rw [keysOf_cons, List.pairwise_cons] at hkeys
    rw [buildFields, build_eq v h.1, buildFields_eq rest hkeys.2 h.2,
      placeField_first hkeys.1]

end

theorem ne_of_bytes_lt {a b : Bytes} (h : a < b) : a ≠ b := by
  rintro rfl
  exact List.lt_irrefl a h

mutual

theorem distinct_of (v : Value φ) (h : WellFormed v) : distinct v = true := by
  cases v with
  | null => rfl
  | boolean b => rfl
  | integer n => rfl
  | float x => rfl
  | string s => rfl
  | array items =>
    simpa [distinct] using distinctItems_of items (by simpa [WellFormed] using h)
  | object fields =>
    rw [WellFormed] at h
    have hnodup : (keysOf fields).Nodup :=
      List.Pairwise.imp ne_of_bytes_lt h.1
    simp [distinct, hnodup, distinctFields_of fields h.2]

theorem distinctItems_of (items : List (Value φ)) (h : WellFormedItems items) :
    distinctItems items = true := by
  match items with
  | [] => rfl
  | v :: rest =>
    rw [WellFormedItems] at h
    simp [distinctItems, distinct_of v h.1, distinctItems_of rest h.2]

theorem distinctFields_of (fields : List (Bytes × Value φ))
    (h : WellFormedFields fields) : distinctFields fields = true := by
  match fields with
  | [] => rfl
  | (key, v) :: rest =>
    rw [WellFormedFields] at h
    simp [distinctFields, distinct_of v h.1, distinctFields_of rest h.2]

end

/-! ## The old names of the HTTP type -/

variable {key other : Bytes}

theorem find_setField_ne (x : Value φ)
    (fields : List (Bytes × Value φ)) (h : other ≠ key) :
    (setField key x fields).find? (fun field => field.1 == other) =
      fields.find? fun field => field.1 == other := by
  induction fields with
  | nil => rfl
  | cons field rest ih =>
    by_cases hkey : field.1 = key
    · simp [setField, hkey, Ne.symm h]
    · simp [setField, hkey, List.find?_cons, ih]

theorem find_setField_self (x : Value φ)
    {fields : List (Bytes × Value φ)} (h : key ∈ keysOf fields) :
    (setField key x fields).find? (fun field => field.1 == key) = some (key, x) := by
  induction fields with
  | nil => simp at h
  | cons field rest ih =>
    by_cases hkey : field.1 = key
    · simp [setField, hkey]
    · have hrest : key ∈ keysOf rest := by simpa [Ne.symm hkey] using h
      simp [setField, hkey, ih hrest]

theorem find_replace_ne (x v : Value φ) (h : other ≠ key) :
    (v.replace key x).find other = v.find other := by
  cases v with
  | object fields =>
    simp only [Value.find, Value.replace, Value.fields, find_setField_ne x fields h]
  | _ => rfl

variable {v : Value φ}

theorem find_replace_self {x y : Value φ} (h : v.find key = some y) :
    (v.replace key x).find key = some x := by
  cases v with
  | object fields =>
    have hmem : key ∈ keysOf fields := by
      simp only [Value.find, Value.fields, Option.map_eq_some_iff] at h
      obtain ⟨field, hfield, -⟩ := h
      have hkey : field.1 = key := by simpa using List.find?_some hfield
      exact hkey ▸ List.mem_map_of_mem (List.mem_of_find?_eq_some hfield)
    simp [Value.find, Value.replace, Value.fields, find_setField_self x hmem]
  | _ => simp [Value.find, Value.fields] at h

theorem canonical_cases (v : Value φ) :
    canonical v = v ∨ ∃ type, (type = ascii "HTTP10" ∨ type = ascii "HTTP11") ∧
      v.find (ascii "type") = some (.string type) ∧
      canonical v = v.replace (ascii "type") (.string (ascii "HTTP")) := by
  unfold canonical
  split
  case h_1 type hfind =>
    by_cases hold : type = ascii "HTTP10" ∨ type = ascii "HTTP11"
    · exact .inr ⟨type, hold, hfind, by simp [hold]⟩
    · simp [hold]
  case h_2 => exact .inl rfl

theorem canonical_canonical (v : Value φ) :
    canonical (canonical v) = canonical v := by
  rcases canonical_cases v with h | ⟨type, -, hfind, h⟩
  · rw [h, h]
  · rw [h, canonical, find_replace_self hfind]
    have hnew : ¬ (ascii "HTTP" = ascii "HTTP10" ∨
        ascii "HTTP" = ascii "HTTP11") := by
      decide
    simp [hnew]

theorem isObject_replace (key : Bytes) (x v : Value φ) :
    isObject (v.replace key x) = isObject v := by
  cases v <;> rfl

variable {w : Value φ}

theorem stringField_congr {key : String}
    (h : w.find (ascii key) = v.find (ascii key)) (limit : Nat) :
    stringField w key limit = stringField v key limit := by
  rw [stringField, stringField, h]

theorem integerField_congr {key : String}
    (h : w.find (ascii key) = v.find (ascii key)) :
    integerField w key = integerField v key := by
  rw [integerField, integerField, h]

theorem booleanField_congr {key : String}
    (h : w.find (ascii key) = v.find (ascii key)) :
    booleanField w key = booleanField v key := by
  rw [booleanField, booleanField, h]

theorem checkBooleans_congr (keys : List String)
    (h : ∀ key ∈ keys, w.find (ascii key) = v.find (ascii key)) :
    checkBooleans w keys = checkBooleans v keys := by
  induction keys with
  | nil => rfl
  | cons key rest ih =>
    rw [List.forall_mem_cons] at h
    rw [checkBooleans, checkBooleans, booleanField_congr h.1, ih h.2]

theorem checkModes_congr (keys : List String)
    (h : ∀ key ∈ keys, w.find (ascii key) = v.find (ascii key)) :
    checkModes w keys = checkModes v keys := by
  induction keys with
  | nil => rfl
  | cons key rest ih =>
    rw [List.forall_mem_cons] at h
    rw [checkModes, checkModes, integerField_congr h.1, ih h.2]

theorem checkFilters_congr (keys : List String)
    (h : ∀ key ∈ keys, w.find (ascii key) = v.find (ascii key)) :
    checkFilters w keys = checkFilters v keys := by
  induction keys with
  | nil => rfl
  | cons key rest ih =>
    rw [List.forall_mem_cons] at h
    rw [checkFilters, checkFilters, h.1, ih h.2]

theorem validate_canonical (v : Value φ) : validate (canonical v) = validate v := by
  rcases canonical_cases v with h | ⟨type, hold, hfind, h⟩
  · rw [h]
  rw [h]
  generalize hw : v.replace (ascii "type") (.string (ascii "HTTP")) = w
  have hother : ∀ key, ascii key ≠ ascii "type" →
      w.find (ascii key) = v.find (ascii key) :=
    fun key hkey => hw ▸ find_replace_ne _ v hkey
  have htype : w.find (ascii "type") = some (.string (ascii "HTTP")) :=
    hw ▸ find_replace_self hfind
  have hobject : isObject w = isObject v := hw ▸ isObject_replace _ _ v
  have hnew : stringField w "type" 16 = .ok (ascii "HTTP") := by
    rw [stringField, htype]
    rfl
  have hport : checkPort w (ascii "HTTP") = checkPort v type := by
    funext host
    rcases hold with rfl | rfl <;>
      simp only [checkPort, integerField_congr (hother "port" (by decide))] <;>
      rfl
  have hfields : ∀ key ∈ ["name", "host", "user", "password", "psk", "transport",
      "redirect_dns"], ∀ limit,
      stringField w key limit = stringField v key limit := by
    intro key hmem limit
    refine stringField_congr (hother key ?_) limit
    revert key
    decide +kernel
  have hbooleans := checkBooleans_congr ["hook_tcp", "hook_udp", "block_udp",
    "block_ipv6", "hook_children", "redirect_private_dns"]
    fun key hmem => hother key (by revert key; decide)
  have hmodes := checkModes_congr ["dns_mode", "child_mode", "target_mode"]
    fun key hmem => hother key (by revert key; decide)
  have hfilters := checkFilters_congr ["child_rules", "target_rules"]
    fun key hmem => hother key (by revert key; decide)
  have hudp := booleanField_congr (hother "hook_udp" (by decide))
  have htransport : ∀ psk transport,
      checkTransport (ascii "HTTP") psk transport =
        checkTransport type psk transport := by
    rcases hold with rfl | rfl <;> exact fun _ _ => rfl
  have holdField : stringField v "type" 16 = .ok type := by
    rw [stringField, hfind]
    rcases hold with rfl | rfl <;> rfl
  simp only [validate, hobject, hfields "name" (by simp), hfields "host" (by simp),
    hfields "user" (by simp), hfields "password" (by simp), hfields "psk" (by simp),
    hfields "transport" (by simp), hfields "redirect_dns" (by simp), hnew, holdField,
    hport, hbooleans, hmodes, hfilters, hudp, htransport, bind, Except.bind]
  rcases hold with rfl | rfl <;> rfl

theorem wellFormed_setField {s : Bytes} {fields : List (Bytes × Value φ)}
    (h : WellFormedFields fields) :
    WellFormedFields (setField key (.string s) fields) := by
  induction fields with
  | nil => exact h
  | cons field rest ih =>
    rw [WellFormedFields] at h
    by_cases hkey : field.1 = key
    · simpa [setField, hkey, WellFormedFields, WellFormed] using h.2
    · simpa [setField, hkey, WellFormedFields] using ⟨h.1, ih h.2⟩

theorem keysOf_setField (key : Bytes) (x : Value φ)
    (fields : List (Bytes × Value φ)) :
    keysOf (setField key x fields) = keysOf fields := by
  induction fields with
  | nil => rfl
  | cons field rest ih =>
    by_cases hkey : field.1 = key <;> simp [setField, hkey, ih]

theorem wellFormed_canonical (h : WellFormed v) :
    WellFormed (canonical v) := by
  rcases canonical_cases v with heq | ⟨type, -, -, heq⟩
  · rwa [heq]
  · rw [heq]
    cases v with
    | object fields =>
      rw [WellFormed] at h
      simpa [Value.replace, WellFormed, keysOf_setField] using
        ⟨h.1, wellFormed_setField h.2⟩
    | _ => exact h

theorem withinFields_setField {s old : Bytes} {n : Nat}
    {fields : List (Bytes × Value φ)}
    (h : fields.find? (fun field => field.1 == key) = some (key, .string old)) :
    withinFields n (setField key (.string s) fields) = withinFields n fields := by
  induction fields with
  | nil => rfl
  | cons field rest ih =>
    by_cases hkey : field.1 = key
    · have hfield : field = (key, .string old) := by simpa [hkey] using h
      cases n <;> simp [setField, hfield, withinFields, within]
    · have hrest := ih (by simpa [List.find?_cons, hkey] using h)
      cases n <;> simp [setField, hkey, withinFields, hrest]

theorem within_canonical (n : Nat) (v : Value φ) :
    within n (canonical v) = within n v := by
  rcases canonical_cases v with heq | ⟨type, -, hfind, heq⟩
  · rw [heq]
  · rw [heq]
    cases v with
    | object fields =>
      simp only [Value.find, Value.fields, Option.map_eq_some_iff] at hfind
      obtain ⟨⟨key, x⟩, hfield, hx⟩ := hfind
      have hkey : key = ascii "type" := by simpa using List.find?_some hfield
      cases hx
      rw [hkey] at hfield
      simpa [Value.replace, within] using withinFields_setField hfield
    | _ => rfl

/-! ## Codes -/

theorem bind_eq_ok {α β : Type} {x : Checked α} {f : α → Checked β} {b : β} :
    x >>= f = .ok b ↔ ∃ a, x = .ok a ∧ f a = .ok b := by
  cases x <;> simp [bind, Except.bind]

theorem check_bind_eq_ok {β : Type} {x : Checked Unit} {f : Unit → Checked β}
    {b : β} :
    x >>= f = .ok b ↔ x = .ok () ∧ f () = .ok b := by
  cases x <;> simp [bind, Except.bind]

theorem require_eq_ok {condition : Bool} {key : String} {u : Unit} :
    require condition key = .ok u ↔ condition = true := by
  cases condition <;> simp [require, fail]

variable {text : Bytes}

theorem dropWhile_none (h : ∀ c ∈ text, isBlank c = false) :
    text.dropWhile isBlank = text := by
  cases text with
  | nil => rfl
  | cons c rest => simp [h c (by simp)]

theorem trim_eq {before after : Bytes} (hbefore : ∀ c ∈ before, isBlank c = true)
    (htext : ∀ c ∈ text, isBlank c = false) (hafter : ∀ c ∈ after, isBlank c = true)
    (hne : text ≠ []) : trim (before ++ text ++ after) = text := by
  have hfirst : (text ++ after).dropWhile isBlank = text ++ after := by
    cases text with
    | nil => exact absurd rfl hne
    | cons c rest => simp [htext c (by simp)]
  have hreverse : ∀ c ∈ text.reverse, isBlank c = false := by simpa using htext
  rw [trim, List.append_assoc, List.dropWhile_append_of_pos hbefore, hfirst,
    List.reverse_append, List.dropWhile_append_of_pos (by simpa using hafter),
    dropWhile_none hreverse, List.reverse_reverse]

theorem base64Url_nil_iff (json : Bytes) : base64Url json = [] ↔ json = [] := by
  constructor
  · intro h
    have hdecode := Alphabet.decode_encode (a := Alphabet.url) json
    rw [← base64Url_eq, h] at hdecode
    exact (Option.some.inj hdecode).symm
  · rintro rfl
    rfl

theorem code_not_blank (json : Bytes) :
    ∀ c ∈ codePrefix ++ base64Url json, isBlank c = false := by
  intro c hc
  rw [base64Url_eq, List.mem_append] at hc
  rcases hc with hc | hc
  · have hall : (codePrefix.all fun c => !isBlank c) = true := by decide
    simpa using List.all_eq_true.1 hall c hc
  · have hall : (Alphabet.url.chars.all fun c => !isBlank c) = true := by decide
    simpa using List.all_eq_true.1 hall c (Alphabet.mem_of_mem_encode hc)

theorem comparesEqual_iff (code text : Bytes) :
    comparesEqual code text.length text = true ↔ text <+: code := by
  rw [comparesEqual, beq_iff_eq, List.prefix_iff_eq_take, eq_comm]

theorem comparesEqual_short (code : Bytes) :
    comparesEqual code 20 (ascii "proxylane://profile/v") = false := by
  rw [comparesEqual, beq_eq_false_iff_ne]
  intro h
  have hlength := congrArg List.length h
  have htext : (ascii "proxylane://profile/v").length = 21 := by decide
  rw [htext, List.length_take] at hlength
  omega

variable {code : Bytes}

theorem encodedPart_eq_ok {encoded : Bytes} :
    encodedPart code = .ok encoded ↔
      code.length ≤ maxCodeBytes ∧ trim code = codePrefix ++ encoded := by
  have hprefix : codePrefix ≠ [] := by decide
  simp only [encodedPart, bind_eq_ok, require_eq_ok, comparesEqual_short,
    Bool.false_eq_true, if_false]
  by_cases hcode : comparesEqual (trim code) codePrefix.length codePrefix = true
  · rw [if_pos hcode]
    rw [comparesEqual_iff] at hcode
    obtain ⟨rest, hrest⟩ := hcode
    simp [← hrest, hprefix, pure, Except.pure]
  · rw [if_neg hcode]
    rw [comparesEqual_iff] at hcode
    simp only [fail, reduceCtorEq, and_false, exists_false, false_iff, not_and]
    exact fun _ h => hcode ⟨encoded, h.symm⟩

def jsonText (code : Bytes) : Checked Bytes := encodedPart code >>= payload

variable {json : Bytes}

theorem jsonText_eq_ok :
    jsonText code = .ok json ↔
      code.length ≤ maxCodeBytes ∧ trim code = codePrefix ++ base64Url json ∧
        json ≠ [] ∧ json.length ≤ maxJsonBytes := by
  simp only [jsonText, bind_eq_ok, encodedPart_eq_ok, payload_eq_ok]
  constructor
  · rintro ⟨encoded, ⟨hsize, htrim⟩, hne, hjson, hmax⟩
    have hencoded := Alphabet.encode_decode hjson
    rw [← base64Url_eq] at hencoded
    refine ⟨hsize, by rw [htrim, hencoded], ?_, hmax⟩
    rintro rfl
    exact hne hencoded.symm
  · rintro ⟨hsize, htrim, hne, hmax⟩
    refine ⟨base64Url json, ⟨hsize, htrim⟩, ?_, ?_, hmax⟩
    · simpa [base64Url_nil_iff] using hne
    · rw [base64Url_eq, Alphabet.decode_encode]

variable {lib : Library φ}

theorem parse_eq_ok {value : Value φ} :
    parse lib json = .ok value ↔
      ∃ tree, watch [] (lib.report json) = .ok () ∧ lib.tree json = some tree ∧
        build tree = value := by
  simp only [parse, check_bind_eq_ok]
  cases lib.tree json with
  | none => simp
  | some tree => simp [pure, Except.pure]

theorem decode_eq_ok {value : Value φ} :
    decode lib code = .ok value ↔
      ∃ json tree, jsonText code = .ok json ∧
        watch [] (lib.report json) = .ok () ∧ lib.tree json = some tree ∧
        validate (build tree) = .ok () ∧ canonical (build tree) = value := by
  simp only [decode, jsonText, bind_eq_ok, parse_eq_ok]
  constructor
  · rintro ⟨encoded, hencoded, json, hjson, value', ⟨tree, hwatch, htree, rfl⟩,
      _, hvalidate, hvalue⟩
    exact ⟨json, tree, ⟨encoded, hencoded, hjson⟩, hwatch, htree, hvalidate,
      Except.ok.inj hvalue⟩
  · rintro ⟨json, tree, ⟨encoded, hencoded, hjson⟩, hwatch, htree, hvalidate, rfl⟩
    exact ⟨encoded, hencoded, json, hjson, build tree, ⟨tree, hwatch, htree, rfl⟩,
      (), hvalidate, rfl⟩

theorem encode_eq_ok {value : Value φ} :
    encode lib value = .ok text ↔
      ∃ json, validate value = .ok () ∧ lib.dump (canonical value) = some json ∧
        json.length ≤ maxJsonBytes ∧
        (codePrefix ++ base64Url json).length ≤ maxCodeBytes ∧
        codePrefix ++ base64Url json = text := by
  simp only [encode, check_bind_eq_ok]
  cases lib.dump (canonical value) with
  | none => simp
  | some json => simp [require_eq_ok, check_bind_eq_ok, pure, Except.pure]

theorem base64Url_inj (h : base64Url json = base64Url other) :
    json = other := by
  rw [base64Url_eq, base64Url_eq] at h
  have hdecode := Alphabet.decode_encode (a := Alphabet.url) json
  rw [h, Alphabet.decode_encode] at hdecode
  exact (Option.some.inj hdecode).symm

theorem trim_inj (hcode : jsonText code = .ok json)
    (hother : jsonText other = .ok json) : trim code = trim other := by
  rw [jsonText_eq_ok] at hcode hother
  rw [hcode.2.1, hother.2.1]

def OtherVersion (code : Bytes) : Prop :=
  ascii "proxylane://profile/v" <+: trim code ∧ ¬ codePrefix <+: trim code

instance (code : Bytes) : Decidable (OtherVersion code) := by
  unfold OtherVersion
  infer_instance

theorem decode_otherVersion (lib : Library φ) (h : OtherVersion code) :
    decode lib code ≠ fail "share.unsupported_version" := by
  have hequal : ¬ comparesEqual (trim code) codePrefix.length codePrefix = true :=
    fun hequal => h.2 ((comparesEqual_iff _ _).1 hequal)
  simp only [decode, encodedPart, hequal, comparesEqual_short, Bool.false_eq_true,
    if_false]
  cases hlength : decide (code.length ≤ maxCodeBytes) <;>
    cases hempty : (trim code).isEmpty <;>
    simp [require, fail, bind, Except.bind]

/-! ## The library -/

/-- What is relied on: the parser reports what it has read, it reads what was
printed, and an empty text is no JSON. -/
structure Library.Lawful (lib : Library φ) : Prop where
  report_tree : ∀ {text tree}, lib.tree text = some tree →
    lib.report text = events 0 tree
  tree_dump : ∀ {v text}, WellFormed v → lib.dump v = some text →
    lib.tree text = some v
  tree_nil : lib.tree [] = none

theorem decode_distinct (hlib : lib.Lawful)
    {value : Value φ} (h : decode lib code = .ok value) :
    ∃ json tree, jsonText code = .ok json ∧ lib.tree json = some tree ∧
      distinct tree = true := by
  obtain ⟨json, tree, hjson, hwatch, htree, -⟩ := decode_eq_ok.1 h
  rw [hlib.report_tree htree, watch_tree] at hwatch
  exact ⟨json, tree, hjson, htree, hwatch.2⟩

theorem decode_encode_iff (hlib : lib.Lawful)
    (hv : WellFormed v) {before after : Bytes} (htext : encode lib v = .ok text)
    (hbefore : ∀ c ∈ before, isBlank c = true)
    (hafter : ∀ c ∈ after, isBlank c = true)
    (hsize : (before ++ text ++ after).length ≤ maxCodeBytes) :
    decode lib (before ++ text ++ after) = .ok (canonical v) ↔ within 8 v = true := by
  obtain ⟨json, hvalidate, hdump, hmax, -, rfl⟩ := encode_eq_ok.1 htext
  have hcanonical := wellFormed_canonical hv
  have htree := hlib.tree_dump hcanonical hdump
  have hne : json ≠ [] := by
    rintro rfl
    rw [hlib.tree_nil] at htree
    cases htree
  have hprefix : codePrefix ≠ [] := by decide
  have htrim := trim_eq hbefore (code_not_blank json) hafter
    (List.append_ne_nil_of_left_ne_nil hprefix _)
  rw [decode_eq_ok, ← within_canonical]
  constructor
  · rintro ⟨json', tree, hjson, hwatch, htree', -⟩
    have hsame := (jsonText_eq_ok.1 hjson).2.1
    rw [htrim, List.append_cancel_left_eq] at hsame
    rw [← base64Url_inj hsame, htree] at htree'
    cases htree'
    rw [← base64Url_inj hsame, hlib.report_tree htree, watch_tree] at hwatch
    exact hwatch.1
  · intro hwithin
    refine ⟨json, canonical v, jsonText_eq_ok.2 ⟨hsize, htrim, hne, hmax⟩, ?_, htree,
      ?_, ?_⟩
    · rw [hlib.report_tree htree, watch_tree]
      exact ⟨hwithin, distinct_of _ hcanonical⟩
    · rw [build_eq _ hcanonical, validate_canonical, hvalidate]
    · rw [build_eq _ hcanonical, canonical_canonical]

/-- What users may expect of the code of a value, between blanks, and of any two
codes. -/
structure Portable (lib : Library φ) (v : Value φ)
    (before text after code other : Bytes) : Prop where
  round_trip : decode lib (before ++ text ++ after) = .ok (canonical v)
  payload : ∀ value, decode lib code = .ok value →
    ∃ json, jsonText code = .ok json ∧ trim code = codePrefix ++ base64Url json
  same_text : ∀ json, jsonText code = .ok json → jsonText other = .ok json →
    trim code = trim other
  version : OtherVersion code → decode lib code = fail "share.unsupported_version"
  keys : ∀ value, decode lib code = .ok value →
    ∃ json tree, jsonText code = .ok json ∧ lib.tree json = some tree ∧
      distinct tree = true

/-- The codec keeps what it promises unless the value is too deep or the code is
of another version. -/
theorem portable_iff {lib : Library φ} (hlib : lib.Lawful) {v : Value φ}
    (hv : WellFormed v) {text before after : Bytes} (code other : Bytes)
    (htext : encode lib v = .ok text)
    (hbefore : ∀ c ∈ before, isBlank c = true)
    (hafter : ∀ c ∈ after, isBlank c = true)
    (hsize : (before ++ text ++ after).length ≤ maxCodeBytes) :
    Portable lib v before text after code other ↔
      within 8 v = true ∧ ¬ OtherVersion code := by
  have htrip := decode_encode_iff hlib hv htext hbefore hafter hsize
  constructor
  · intro h
    exact ⟨htrip.1 h.round_trip,
      fun hother => decode_otherVersion lib hother (h.version hother)⟩
  · rintro ⟨hwithin, hother⟩
    exact {
      round_trip := htrip.2 hwithin
      payload := by
        intro value hvalue
        obtain ⟨json, -, hjson, -⟩ := decode_eq_ok.1 hvalue
        exact ⟨json, hjson, (jsonText_eq_ok.1 hjson).2.1⟩
      same_text := fun _ hcode hsame => trim_inj hcode hsame
      version := fun h => absurd h hother
      keys := fun _ hvalue => decode_distinct hlib hvalue }

/-! ## A profile -/

/-- The values of a profile's fields; `rules` is an empty list. -/
inductive Leaf where
  | boolean (b : Bool)
  | integer (n : Int)
  | string (s : Bytes)
  | rules
  deriving DecidableEq

def Leaf.value : Leaf → Value Empty
  | .boolean b => .boolean b
  | .integer n => .integer n
  | .string s => .string s
  | .rules => .array []

def leaf : Value Empty → Option Leaf
  | .boolean b => some (.boolean b)
  | .integer n => some (.integer n)
  | .string s => some (.string s)
  | .array [] => some .rules
  | _ => none

theorem value_of_leaf {v : Value Empty} {l : Leaf} (h : leaf v = some l) :
    l.value = v := by
  unfold leaf at h
  split at h <;> cases h <;> rfl

def leaves : List (Bytes × Value Empty) → Option (List (Bytes × Leaf))
  | [] => some []
  | (key, v) :: rest => do return (key, ← leaf v) :: (← leaves rest)

theorem fields_of_leaves {fields : List (Bytes × Value Empty)}
    {found : List (Bytes × Leaf)} (h : leaves fields = some found) :
    found.map (fun (key, l) => (key, l.value)) = fields := by
  induction fields generalizing found with
  | nil =>
    cases h
    rfl
  | cons field rest ih =>
    obtain ⟨key, v⟩ := field
    simp only [leaves, Option.pure_def, Option.bind_eq_bind,
      Option.bind_eq_some_iff, Option.some.injEq] at h
    obtain ⟨l, hl, more, hmore, rfl⟩ := h
    simp [value_of_leaf hl, ih hmore]

def sampleFields : List (Bytes × Leaf) :=
  [(ascii "block_ipv6", .boolean true), (ascii "block_udp", .boolean false),
    (ascii "child_mode", .integer 0), (ascii "child_rules", .rules),
    (ascii "dns_mode", .integer 1), (ascii "hook_children", .boolean true),
    (ascii "hook_tcp", .boolean true), (ascii "hook_udp", .boolean false),
    (ascii "host", .string (ascii "localhost")), (ascii "name", .string (ascii "home")),
    (ascii "password", .string []), (ascii "port", .integer 1080),
    (ascii "psk", .string []), (ascii "redirect_dns", .string (ascii "8.8.8.8")),
    (ascii "redirect_private_dns", .boolean true), (ascii "target_mode", .integer 0),
    (ascii "target_rules", .rules), (ascii "transport", .string (ascii "PLAIN")),
    (ascii "type", .string (ascii "SOCKS5")), (ascii "user", .string [])]

def sampleProfile : Value Empty :=
  .object (sampleFields.map fun (key, l) => (key, l.value))

def sampleJson : Bytes :=
  ascii "\x7b\"block_ipv6\":true,\"block_udp\":false,\"child_mode\":0," ++
  ascii "\"child_rules\":[],\"dns_mode\":1,\"hook_children\":true," ++
  ascii "\"hook_tcp\":true,\"hook_udp\":false,\"host\":\"localhost\"," ++
  ascii "\"name\":\"home\",\"password\":\"\",\"port\":1080,\"psk\":\"\"," ++
  ascii "\"redirect_dns\":\"8.8.8.8\",\"redirect_private_dns\":true," ++
  ascii "\"target_mode\":0,\"target_rules\":[],\"transport\":\"PLAIN\"," ++
  ascii "\"type\":\"SOCKS5\",\"user\":\"\"\x7d"

def sampleLibrary : Library Empty where
  dump v := if leaves v.fields = some sampleFields then some sampleJson else none
  report text := if text = sampleJson then events 0 sampleProfile else []
  tree text := if text = sampleJson then some sampleProfile else none

theorem sampleLibrary_lawful : sampleLibrary.Lawful where
  report_tree := by
    intro text tree h
    by_cases htext : text = sampleJson
    · simp_all [sampleLibrary]
    · simp [sampleLibrary, htext] at h
  tree_dump := by
    rintro v text - h
    by_cases hleaves : leaves v.fields = some sampleFields
    · cases v with
      | object fields =>
        have hfields := fields_of_leaves hleaves
        simp only [sampleLibrary, hleaves, if_true, Option.some.injEq] at h
        simp only [sampleLibrary, ← h, if_true, sampleProfile, hfields, Value.fields]
      | _ => simp [Value.fields, leaves, sampleFields] at hleaves
    · simp [sampleLibrary, hleaves] at h
  tree_nil := by
    have hne : ¬ [] = sampleJson := by decide
    simp [sampleLibrary, hne]

private theorem wellFormed_leaves (fields : List (Bytes × Leaf)) :
    WellFormedFields (fields.map fun (key, l) => (key, l.value)) := by
  induction fields with
  | nil => exact trivial
  | cons field rest ih =>
    obtain ⟨key, l⟩ := field
    cases l <;> exact ⟨trivial, ih⟩

theorem sampleProfile_wellFormed : WellFormed sampleProfile := by
  have hkeys : (sampleFields.map Prod.fst).Pairwise (· < ·) := by decide
  refine ⟨?_, wellFormed_leaves sampleFields⟩
  rw [keysOf, List.map_map]
  exact hkeys

def sampleCode : Bytes := codePrefix ++ base64Url sampleJson

theorem encode_sample : encode sampleLibrary sampleProfile = .ok sampleCode := by
  decide +kernel

theorem portable_sample :
    Portable sampleLibrary sampleProfile [32, 13, 10] sampleCode [10, 9] sampleCode
        sampleCode ↔
      within 8 sampleProfile = true ∧ ¬ OtherVersion sampleCode :=
  portable_iff sampleLibrary_lawful sampleProfile_wellFormed _ _ encode_sample
    (by decide +kernel) (by decide +kernel) (by decide +kernel)

theorem not_portable_version :
    encode sampleLibrary sampleProfile = .ok sampleCode ∧
      decode sampleLibrary (ascii "proxylane://profile/v2/abc") =
        fail "share.invalid_code" ∧
      ¬ Portable sampleLibrary sampleProfile [] sampleCode []
        (ascii "proxylane://profile/v2/abc") sampleCode := by
  have hdecode : decode sampleLibrary (ascii "proxylane://profile/v2/abc") =
      fail "share.invalid_code" := by rfl
  refine ⟨encode_sample, hdecode, fun h => ?_⟩
  have hversion := h.version (by decide)
  rw [hdecode] at hversion
  simp [fail] at hversion

end ProxyLane.App.ProfileShare
