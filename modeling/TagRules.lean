import TagRules.Main
import TagRules.Proofs.Cutting
import TagRules.Proofs.Spelling
import TagRules.Proofs.Grammar
import TagRules.Proofs.Reading
import TagRules.Proofs.Canonical
import TagRules.Proofs.Literals
import TagRules.Proofs.Clauses
import TagRules.Proofs.Evidence
import TagRules.Proofs.Requoting
import TagRules.Proofs.Recombination
import TagRules.Proofs.Connectives
import TagRules.Proofs.Synthesis
import TagRules.Proofs.Extraction
import TagRules.Proofs.Layout
import TagRules.Proofs.Openings
import TagRules.Proofs.Levels
import TagRules.Proofs.Faults
import TagRules.Proofs.Offsets
import TagRules.Proofs.Histories
import TagRules.Proofs.Relevance
import TagRules.Proofs.Sessions
import TagRules.Proofs.Precedence
import TagRules.Proofs.JsonRecords
import TagRules.Proofs.Tallies
import TagRules.Proofs.Counters
import TagRules.Proofs.Ranking
import TagRules.Proofs.Stability
import TagRules.Proofs.Lookups
import TagRules.Proofs.Resolution
import TagRules.Proofs.Heights
