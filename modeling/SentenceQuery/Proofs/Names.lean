import SentenceQuery.Aggregate
import SentenceQuery.Query.Word
import SentenceQuery.Schema

/-!
# Names are read back

Kinds, operators, aggregates, connectives and directions have fixed names, and each is the only one of its name.
-/

namespace SentenceQuery

theorem Kind.ofName?_name (kind : Kind) : Kind.ofName? kind.name = some kind := by
  cases kind <;> decide

theorem NumberOperator.ofName?_name (op : NumberOperator) : NumberOperator.ofName? op.name = some op := by
  cases op <;> decide

theorem TextOperator.ofName?_name (op : TextOperator) : TextOperator.ofName? op.name = some op := by
  cases op <;> decide

theorem Aggregate.ofName?_name (op : Aggregate) : Aggregate.ofName? op.name = some op := by
  cases op <;> decide

theorem Connective.ofWord?_word (connective : Connective) : Connective.ofWord? connective.word = some connective := by
  cases connective <;> decide

theorem Direction.ofWord?_word (d : Direction) : Direction.ofWord? d.word = some d := by
  cases d <;> decide

end SentenceQuery
