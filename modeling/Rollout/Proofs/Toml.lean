import Rollout.Toml.Document
/-!
# Integers of a TOML document

An integer is written with any number of digits, but a document in which one does not have 64 bits
with a sign is refused. The bound holds at every depth of what is read: scalars have it, arrays
and inline tables hand it on to their elements, and a line changes the document only by putting
values into its tables.
-/

namespace Rollout.Toml

/-- Every integer in the value has 64 bits with a sign. -/
inductive Fits : Toml → Prop
  | string (s : String) : Fits (.string s)
  | integer (n : Int) (low : Int64.minValue.toInt ≤ n) (high : n ≤ Int64.maxValue.toInt) :
    Fits (.integer n)
  | float : Fits .float
  | boolean (b : Bool) : Fits (.boolean b)
  | datetime : Fits .datetime
  | array (vs : List Toml) (all : ∀ v ∈ vs, Fits v) : Fits (.array vs)
  | inline (es : Entries) (all : ∀ e ∈ es, Fits e.2) : Fits (.inline es)
  | table (origin : Origin) (es : Entries) (all : ∀ e ∈ es, Fits e.2) : Fits (.table origin es)
  | tables (ts : List Entries) (all : ∀ es ∈ ts, ∀ e ∈ es, Fits e.2) : Fits (.tables ts)

def AllFit (es : Entries) : Prop := ∀ e ∈ es, Fits e.2

/-! ## Tables -/

section Tables

variable {es es' : Entries} {key : String} {v : Toml}

theorem allFit_nil : AllFit [] := List.forall_mem_nil _

theorem allFit_add (h : AllFit es) (hv : Fits v) : AllFit (es ++ [(key, v)]) :=
  List.forall_mem_append.mpr ⟨h, List.forall_mem_singleton.mpr hv⟩

theorem fits_of_lookup (h : AllFit es) (hv : es.lookup key = some v) : Fits v := by
  obtain ⟨before, after, rfl, -⟩ := List.lookup_eq_some_iff.mp hv
  exact h (key, v) (List.mem_append_right before List.mem_cons_self)

theorem allFit_replace (h : AllFit es) (hv : Fits v) : AllFit (replace key v es) := by
  induction es with
  | nil => exact allFit_nil
  | cons e rest ih =>
    obtain ⟨he, hrest⟩ := List.forall_mem_cons.mp h
    simp only [replace]
    split
    · exact List.forall_mem_cons.mpr ⟨hv, hrest⟩
    · exact List.forall_mem_cons.mpr ⟨he, ih hrest⟩

theorem Fits.entries {origin : Origin} (h : Fits (.table origin es)) : AllFit es := by
  cases h with
  | table _ _ all => exact all

theorem Fits.elements {ts : List Entries} (h : Fits (.tables ts)) : ∀ es ∈ ts, AllFit es := by
  cases h with
  | tables _ all => exact all

theorem allFit_modifyAt {dotted : Bool} {change : Origin → Entries → Option Entries}
    (hchange : ∀ origin es es', AllFit es → change origin es = some es' → AllFit es')
    {path : List String} {origin : Origin} (h : AllFit es)
    (hes : modifyAt dotted change path origin es = some es') : AllFit es' := by
  induction path generalizing origin es es' with
  | nil => exact hchange origin es es' h hes
  | cons key path ih =>
    simp only [modifyAt] at hes
    split at hes
    · -- The key is new.
      obtain ⟨inner, hinner, hes⟩ := Option.bind_eq_some_iff.mp hes
      cases hes
      exact allFit_add h (.table _ _ (ih allFit_nil hinner))
    · -- The key has a table.
      rename_i hkey
      split at hes
      · cases hes
      · obtain ⟨inner, hinner, hes⟩ := Option.bind_eq_some_iff.mp hes
        cases hes
        exact allFit_replace h (.table _ _ (ih (fits_of_lookup h hkey).entries hinner))
    · -- The key has an array of tables, of which the last is open.
      rename_i elements hkey
      have helements := (fits_of_lookup h hkey).elements
      split at hes
      · cases hes
      · rename_i last hlast
        obtain ⟨inner, hinner, hes⟩ := Option.bind_eq_some_iff.mp hes
        cases hes
        have hinner := ih (helements _ (List.mem_of_getLast? hlast)) hinner
        refine allFit_replace h (.tables _ (List.forall_mem_append.mpr ⟨fun es hes => ?_, ?_⟩))
        · exact helements es ((List.dropLast_sublist elements).subset hes)
        · exact List.forall_mem_singleton.mpr hinner
    · cases hes

theorem allFit_addKey {path : List String} (h : AllFit es) (hv : Fits v)
    (hes : addKey path key v es = some es') : AllFit es' := by
  refine allFit_modifyAt (fun origin es es' h hes => ?_) h hes
  split at hes
  · cases hes
  · split at hes
    · cases hes
    · cases hes
      exact allFit_add h hv

theorem allFit_openTable (h : AllFit es) (hes : openTable key es = some es') : AllFit es' := by
  unfold openTable at hes
  split at hes
  · cases hes
    exact allFit_add h (.table _ _ allFit_nil)
  · rename_i hkey
    cases hes
    exact allFit_replace h (.table _ _ (fits_of_lookup h hkey).entries)
  · cases hes

theorem allFit_openElement (h : AllFit es) (hes : openElement key es = some es') :
    AllFit es' := by
  unfold openElement at hes
  split at hes
  · cases hes
    exact allFit_add h (.tables _ (List.forall_mem_singleton.mpr allFit_nil))
  · rename_i elements hkey
    cases hes
    have helements := (fits_of_lookup h hkey).elements
    exact allFit_replace h (.tables _ (List.forall_mem_append.mpr
      ⟨helements, List.forall_mem_singleton.mpr allFit_nil⟩))
  · cases hes

theorem allFit_enter {path : List String} (h : AllFit es) (hv : Fits v)
    (hes : enter path v es = some es') : AllFit es' := by
  obtain ⟨key, -, hes⟩ := Option.bind_eq_some_iff.mp hes
  exact allFit_addKey h hv hes

end Tables

/-! ## Values -/

section Values

theorem of_inRange {n m : Int} (h : inRange n = some m) :
    Int64.minValue.toInt ≤ m ∧ m ≤ Int64.maxValue.toInt := by
  unfold inRange at h
  split at h
  · cases h
    assumption
  · cases h

theorem of_inBase {base : Nat} {isDigit : Char → Bool} {cs : List Char} {n : Int}
    (h : inBase base isDigit cs = some n) :
    Int64.minValue.toInt ≤ n ∧ n ≤ Int64.maxValue.toInt := by
  obtain ⟨ds, -, h⟩ := Option.bind_eq_some_iff.mp h
  exact of_inRange h

theorem of_integer? {cs : List Char} {n : Int} (h : integer? cs = some n) :
    Int64.minValue.toInt ≤ n ∧ n ≤ Int64.maxValue.toInt := by
  unfold integer? at h
  split at h
  · exact of_inBase h
  · exact of_inBase h
  · exact of_inBase h
  · obtain ⟨ds, -, h⟩ := Option.bind_eq_some_iff.mp h
    exact of_inRange h

theorem fits_of_ofRun? {run : List Char} {v : Toml} (h : ofRun? run = some v) : Fits v := by
  unfold ofRun? at h
  split at h
  · cases h
    exact .boolean true
  split at h
  · cases h
    exact .boolean false
  split at h
  · cases h
    exact .datetime
  split at h
  · cases h
    exact .float
  obtain ⟨n, hn, rfl⟩ := Option.map_eq_some_iff.mp h
  exact .integer n (of_integer? hn).1 (of_integer? hn).2

theorem fits_of_scalar? {cs rest : List Char} {v : Toml} (h : scalar? cs = some (v, rest)) :
    Fits v := by
  obtain ⟨w, hw, h⟩ := Option.bind_eq_some_iff.mp h
  split at h
  · split at h
    · cases h
      exact .datetime
    · cases h
      exact fits_of_ofRun? hw
  · cases h
    exact fits_of_ofRun? hw

/-- Whatever the three readers of values return on this fuel keeps the bound. They call each other
on less fuel, so one induction goes over all of them. -/
private structure Bounded (fuel : Nat) : Prop where
  value : ∀ depth cs v rest, valueFrom fuel depth cs = some (v, rest) → Fits v
  elements : ∀ depth before cs v rest, (∀ w ∈ before, Fits w) →
    elementsFrom fuel depth before cs = some (v, rest) → Fits v
  pairs : ∀ depth es cs v rest, AllFit es → pairsFrom fuel depth es cs = some (v, rest) → Fits v

variable {fuel depth : Nat} {cs rest : List Char} {v : Toml}

private theorem Bounded.value_succ (ih : Bounded fuel)
    (h : valueFrom (fuel + 1) depth cs = some (v, rest)) : Fits v := by
  cases cs with
  | nil => simp [valueFrom] at h
  | cons c cs =>
    simp only [valueFrom] at h
    split at h
    · split at h
      · exact ih.elements _ _ _ _ _ (List.forall_mem_nil _) h
      · cases h
    split at h
    · split at h
      · split at h
        · cases h
          exact .inline _ allFit_nil
        · exact ih.pairs _ _ _ _ _ allFit_nil h
      · cases h
    split at h
    · obtain ⟨⟨s, rest'⟩, -, h⟩ := Option.map_eq_some_iff.mp h
      cases h
      exact .string _
    · exact fits_of_scalar? h

private theorem Bounded.elements_succ (ih : Bounded fuel) {before : List Toml}
    (hbefore : ∀ w ∈ before, Fits w)
    (h : elementsFrom (fuel + 1) depth before cs = some (v, rest)) : Fits v := by
  unfold elementsFrom at h
  split at h
  · cases h
  · cases h
    exact .array _ fun w hw => hbefore w (List.mem_reverse.mp hw)
  · rename_i hfuel _
    cases hfuel
    obtain ⟨⟨w, rest'⟩, hw, h⟩ := Option.bind_eq_some_iff.mp h
    have hall := List.forall_mem_cons.mpr ⟨ih.value _ _ _ _ hw, hbefore⟩
    dsimp only at h
    split at h
    · exact ih.elements _ _ _ _ _ hall h
    · cases h
      exact .array _ fun x hx => hall x (List.mem_reverse.mp hx)
    · cases h

private theorem Bounded.pairs_succ (ih : Bounded fuel) {es : Entries} (hes : AllFit es)
    (h : pairsFrom (fuel + 1) depth es cs = some (v, rest)) : Fits v := by
  simp only [pairsFrom] at h
  obtain ⟨⟨key, rest'⟩, -, h⟩ := Option.bind_eq_some_iff.mp h
  dsimp only at h
  split at h
  · obtain ⟨⟨w, rest'⟩, hw, h⟩ := Option.bind_eq_some_iff.mp h
    obtain ⟨es', hes', h⟩ := Option.bind_eq_some_iff.mp h
    have hall : AllFit es' := allFit_enter hes (ih.value _ _ _ _ hw) hes'
    dsimp only at h
    split at h
    · exact ih.pairs _ _ _ _ _ hall h
    · cases h
      exact .inline _ hall
    · cases h
  · cases h

private theorem bounded (fuel : Nat) : Bounded fuel := by
  induction fuel with
  | zero => constructor <;> simp [valueFrom, elementsFrom, pairsFrom]
  | succ fuel ih =>
    exact ⟨fun _ _ _ _ => ih.value_succ, fun _ _ _ _ _ => ih.elements_succ,
      fun _ _ _ _ _ => ih.pairs_succ⟩

theorem fits_of_value? (h : value? cs = some (v, rest)) : Fits v := (bounded _).value _ _ _ _ h

theorem fits_of_pair? {key : List String} (h : pair? cs = some (key, v, rest)) : Fits v := by
  obtain ⟨⟨key', rest'⟩, -, h⟩ := Option.bind_eq_some_iff.mp h
  dsimp only at h
  split at h
  · obtain ⟨⟨w, rest''⟩, hw, h⟩ := Option.bind_eq_some_iff.mp h
    cases h
    exact fits_of_value? hw
  · cases h

end Values

/-! ## Documents -/

section Documents

variable {d d' : Draft}

theorem Draft.allFit_enter {key : List String} {v : Toml} (h : AllFit d.entries) (hv : Fits v)
    (hd : d.enter key v = some d') : AllFit d'.entries := by
  obtain ⟨es, hes, hd⟩ := Option.bind_eq_some_iff.mp hd
  cases hd
  exact allFit_modifyAt (fun _ _ _ h => Toml.allFit_enter h hv) h hes

theorem Draft.allFit_header {path : List String} {element : Bool} (h : AllFit d.entries)
    (hd : d.header path element = some d') : AllFit d'.entries := by
  obtain ⟨key, -, hd⟩ := Option.bind_eq_some_iff.mp hd
  obtain ⟨es, hes, hd⟩ := Option.bind_eq_some_iff.mp hd
  cases hd
  refine allFit_modifyAt (fun _ es es' h hes => ?_) h hes
  split at hes
  · exact allFit_openElement h hes
  · exact allFit_openTable h hes

theorem allFit_linesFrom {fuel : Nat} {cs : List Char} (h : AllFit d.entries)
    (hd : linesFrom fuel d cs = some d') : AllFit d'.entries := by
  induction fuel generalizing d cs with
  | zero => cases hd
  | succ fuel ih =>
    simp only [linesFrom] at hd
    split at hd
    · cases hd
      exact h
    · -- A header opens a table.
      obtain ⟨⟨path, element, rest⟩, -, hd⟩ := Option.bind_eq_some_iff.mp hd
      obtain ⟨next, hnext, hd⟩ := Option.bind_eq_some_iff.mp hd
      obtain ⟨rest', -, hd⟩ := Option.bind_eq_some_iff.mp hd
      exact ih (Draft.allFit_header h hnext) hd
    · split at hd
      · exact ih h hd
      · -- A key and its value enter the open table.
        obtain ⟨⟨key, v, rest⟩, hpair, hd⟩ := Option.bind_eq_some_iff.mp hd
        obtain ⟨next, hnext, hd⟩ := Option.bind_eq_some_iff.mp hd
        obtain ⟨rest', -, hd⟩ := Option.bind_eq_some_iff.mp hd
        exact ih (Draft.allFit_enter h (fits_of_pair? hpair) hnext) hd

/-- No document has an integer of more than 64 bits, in any of its tables. -/
theorem allFit_of_parse? {text : String} {es : Entries} (h : parse? text = some es) :
    AllFit es := by
  obtain ⟨d, hd, rfl⟩ := Option.map_eq_some_iff.mp h
  exact allFit_linesFrom (d := .empty) allFit_nil hd

end Documents

end Rollout.Toml
