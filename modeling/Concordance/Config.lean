import Concordance.Error
import Concordance.PostingList
import Concordance.Token

/-!
# Settings

The settings of an engine. `Config.Valid` says which an engine can run with, and
`Config.validate` gives the first reason against others.
-/

namespace Concordance

structure Config where
  /-- Postings between two entries of a skip index. -/
  skipSpan : UInt64 := 100
  /-- Number of results where a query asks for none. -/
  defaultResults : UInt64 := 10
  /-- Answers that the cache keeps; zero for no cache. -/
  cacheSize : UInt64 := 0
  /-- Characters of the shortest token. -/
  minTokenLen : UInt64 := 1
  /-- Characters of the longest token. -/
  maxTokenLen : UInt64 := 64
  caseSensitive : Bool := false
  deriving DecidableEq, Repr

namespace Config

def default : Config := {}

/-- A short skip span, so that few documents are enough for many spans. -/
def testing : Config := { skipSpan := 2, defaultResults := 5 }

/-- With a cache. -/
def general : Config := { cacheSize := 1024 }

def withSkipSpan (config : Config) (skipSpan : UInt64) : Config := { config with skipSpan }

def withCache (config : Config) (cacheSize : UInt64) : Config := { config with cacheSize }

/-- An engine can run with the settings. -/
structure Valid (config : Config) : Prop where
  skipSpan_pos : 0 < config.skipSpan.toNat
  minTokenLen_pos : 0 < config.minTokenLen.toNat
  minTokenLen_le : config.minTokenLen.toNat ≤ config.maxTokenLen.toNat

def validate (config : Config) : Except ConfigError Unit :=
  if config.skipSpan = 0 then .error .zeroSkipSpan
  else if config.minTokenLen = 0 then .error .zeroMinTokenLen
  else if config.maxTokenLen < config.minTokenLen then
    .error (.tokenLenRange config.minTokenLen config.maxTokenLen)
  else .ok ()

theorem validate_eq_ok_iff {config : Config} : config.validate = .ok () ↔ config.Valid := by
  have pos_iff (word : UInt64) : 0 < word.toNat ↔ word ≠ 0 := by
    rw [Nat.pos_iff_ne_zero, Ne, Ne, ← UInt64.toNat_inj]
    rfl
  unfold validate
  constructor
  · intro h
    split at h
    · cases h
    · next hs =>
        split at h
        · cases h
        · next hm =>
            split at h
            · cases h
            · next hle =>
                exact ⟨(pos_iff _).2 hs, (pos_iff _).2 hm,
                  UInt64.le_iff_toNat_le.1 (UInt64.not_lt.1 hle)⟩
  · intro h
    rw [if_neg ((pos_iff _).1 h.skipSpan_pos), if_neg ((pos_iff _).1 h.minTokenLen_pos),
      if_neg (UInt64.not_lt.2 (UInt64.le_iff_toNat_le.2 h.minTokenLen_le))]

/-- The skip span of valid settings. -/
def span (config : Config) (valid : config.Valid) : SkipSpan :=
  ⟨config.skipSpan.toNat, valid.skipSpan_pos⟩

def tokenizer (config : Config) : Tokenizer :=
  ⟨config.caseSensitive, config.minTokenLen.toNat, config.maxTokenLen.toNat⟩

end Config

end Concordance
