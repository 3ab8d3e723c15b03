import NoteGraph.Role
import NoteGraph.Schema.Basic

/-!
# The built-in vocabulary

The types of nodes, relations, attributes, transitions and functions that are known
without any declaration.
-/

namespace NoteGraph.Schema

/-- The built-in types of nodes. -/
def defaultNodeTypes : List NodeType := [
    { name := "class", description := "A class or category of entities" },
    { name := "individual", description := "A specific instance of a class" },
    { name := "Resource"
      description := "Goods, services, or money that have economic value."
      parentTypes := ["class"] },
    { name := "Event"
      description := "An economic event that changes the quantity of a resource."
      parentTypes := ["class"] },
    { name := "Agent"
      description := "A person or company who participates in an economic event."
      parentTypes := ["class"] },
    { name := "LogicalOperator"
      description := "A node representing a logical condition like AND or OR."
      parentTypes := ["class"] },
    { name := "Substance"
      description := "A material with definite chemical composition."
      parentTypes := ["class"] },
    { name := "Element"
      description := "A pure substance consisting of one type of atom."
      parentTypes := ["Substance"] },
    { name := "Molecule"
      description := "A group of atoms bonded together."
      parentTypes := ["Substance"] },
    { name := "Transition"
      description := "A process that transforms inputs to outputs."
      parentTypes := ["class"] },
    { name := "Transaction"
      description := "An accounting transaction that moves value between accounts (double-entry)."
      parentTypes := ["class"] },
    { name := "Account"
      description := "A general ledger account that holds monetary value."
      parentTypes := ["class"] },
    { name := "Asset"
      description := "An account representing resources owned (debit-normal)."
      parentTypes := ["Account"] },
    { name := "Liability"
      description := "An account representing obligations owed (credit-normal)."
      parentTypes := ["Account"] },
    { name := "Equity"
      description := "An account representing owner's residual interest (credit-normal)."
      parentTypes := ["Account"] },
    { name := "Revenue"
      description := "An account representing income earned (credit-normal)."
      parentTypes := ["Account"] },
    { name := "Expense"
      description := "An account representing costs incurred (debit-normal)."
      parentTypes := ["Account"] },
    { name := "Person", description := "A human being", parentTypes := ["Agent"] },
    { name := "Organization"
      description := "A group of people organized for a purpose"
      parentTypes := ["Agent"] },
    { name := "Place"
      description := "A physical location or geographical area"
      parentTypes := ["individual"] },
    { name := "Concept"
      description := "An abstract idea or mental construct"
      parentTypes := ["individual"] },
    { name := "Object"
      description := "A physical thing or artifact"
      parentTypes := ["individual"] }]

/-- The built-in types of relations. -/
def defaultRelationTypes : List RelationType := [
    { name := "inflow"
      description := "An event increases a resource."
      domain := ["Event"]
      range := ["Resource"] },
    { name := "outflow"
      description := "An event decreases a resource."
      domain := ["Event"]
      range := ["Resource"] },
    { name := "provides"
      description := "An agent provides resources to an event."
      domain := ["Agent"]
      range := ["Event"] },
    { name := "receives"
      description := "An agent receives resources from an event."
      domain := ["Agent"]
      range := ["Event"] },
    { name := "duality"
      description := "Connects reciprocal events (e.g., a sale and a payment)."
      domain := ["Event"]
      range := ["Event"]
      symmetric := some true },
    { name := "stockflow"
      description := "Connects an economic event to the resource it affects."
      domain := ["Event"]
      range := ["Resource"] },
    { name := "is_a"
      description := "Subsumption between two types/classes (e.g., \"Human is a Mammal\")."
      domain := ["class"]
      range := ["class"]
      symmetric := some false
      transitive := some true
      inverseName := some "has_subtype"
      aliases := ["is a"] },
    { name := "member_of"
      description := "An individual belongs to a class (e.g., \"Socrates is a member of Humans\")."
      domain := ["individual"]
      range := ["class"]
      symmetric := some false
      transitive := some false
      inverseName := some "has_member"
      aliases := ["member of"] },
    { name := "instance_of"
      description :=
        "An individual is an instance of a class (e.g., \"Earth is an instance of Planet\")."
      domain := ["individual"]
      range := ["class"]
      symmetric := some false
      transitive := some false
      inverseName := some "has_instance"
      aliases := ["instance of"] },
    { name := "part_of"
      description := "Indicates that one entity is a part of another entity"
      symmetric := some false
      transitive := some true
      inverseName := some "has_part" },
    { name := "is a type of"
      description := "Indicates that a class is a subtype of another class."
      domain := ["class"]
      range := ["class"]
      transitive := some true
      inverseName := some "is a parent type of" },
    { name := "has prior_state"
      description := "Defines the inputs and conditions for a transition."
      domain := ["Transition", "Transaction"] },
    { name := "has post_state"
      description := "Defines the outputs of a transition."
      domain := ["Transition", "Transaction"] },
    { name := "debit"
      description :=
        "Debits an account (increases assets/expenses, decreases liabilities/equity/revenue)."
      domain := ["Transaction"]
      range := accountRoles },
    { name := "credit"
      description :=
        "Credits an account (decreases assets/expenses, increases liabilities/equity/revenue)."
      domain := ["Transaction"]
      range := accountRoles },
    { name := "has operand"
      description := "Links a LogicalOperator to one of its operands."
      domain := ["LogicalOperator"] }]

/-- The built-in types of attributes. -/
def defaultAttributeTypes : List AttributeType := [
    { name := "charge"
      dataType := "float"
      description := "Measures electric charge."
      unit := some "coulomb (C)"
      domain := ["Electron", "Ion"] },
    { name := "energy"
      dataType := "float"
      description := "Quantifies the capacity to do work."
      unit := some "joule (J)"
      domain := ["Particle", "Field", "Reaction"] },
    { name := "mass"
      dataType := "float"
      description := "Measures the amount of matter in an object."
      unit := some "kilogram (kg)"
      domain := ["Particle", "Planet", "Organism"] },
    { name := "population"
      dataType := "number"
      description := "Number of inhabitants"
      domain := ["City", "Region", "Country"] },
    { name := "temperature"
      dataType := "float"
      description := "Indicates thermal energy level."
      unit := some "kelvin (K)"
      domain := ["Gas", "Liquid", "Solid"] },
    { name := "velocity"
      dataType := "float"
      description := "Describes the rate of change of position."
      unit := some "meters per second (m/s)"
      domain := ["Particle", "Vehicle"] },
    { name := "area"
      dataType := "float"
      description := "Any place will have an attribute 'area'"
      domain := ["Place"] },
    { name := "Alternate name"
      dataType := "string"
      description := "Any thing that is called by another name" },
    { name := "name"
      dataType := "string"
      description := "The primary name or title of an entity" },
    { name := "description"
      dataType := "string"
      description := "A detailed description or explanation of an entity" },
    { name := "identifier"
      dataType := "string"
      description := "A unique identifier or code for an entity" },
    { name := "url"
      dataType := "string"
      description := "A web address or link associated with an entity" },
    { name := "email"
      dataType := "string"
      description := "An email address associated with a person or organization"
      domain := ["Person", "Organization"] },
    { name := "phone"
      dataType := "string"
      description := "A phone number associated with a person or organization"
      domain := ["Person", "Organization"] },
    { name := "birth_date"
      dataType := "date"
      description := "The date when a person was born"
      domain := ["Person"] },
    { name := "death_date"
      dataType := "date"
      description := "The date when a person died"
      domain := ["Person"] },
    { name := "founded_date"
      dataType := "date"
      description := "The date when an organization was established"
      domain := ["Organization"] },
    { name := "start_date"
      dataType := "date"
      description := "The beginning date of an event or period"
      domain := ["Event"] },
    { name := "end_date"
      dataType := "date"
      description := "The ending date of an event or period"
      domain := ["Event"] },
    { name := "created_date"
      dataType := "date"
      description := "The date when an entity was created" },
    { name := "modified_date"
      dataType := "date"
      description := "The date when an entity was last modified" },
    { name := "latitude"
      dataType := "float"
      description := "Geographic latitude coordinate"
      unit := some "degrees"
      domain := ["Place", "Location"] },
    { name := "longitude"
      dataType := "float"
      description := "Geographic longitude coordinate"
      unit := some "degrees"
      domain := ["Place", "Location"] },
    { name := "elevation"
      dataType := "float"
      description := "Height above sea level"
      unit := some "meters"
      domain := ["Place", "Location"] },
    { name := "width"
      dataType := "float"
      description := "The width dimension of an object"
      unit := some "meters"
      domain := ["Object"] },
    { name := "height"
      dataType := "float"
      description := "The height dimension of an object"
      unit := some "meters"
      domain := ["Object"] },
    { name := "depth"
      dataType := "float"
      description := "The depth dimension of an object"
      unit := some "meters"
      domain := ["Object"] },
    { name := "weight"
      dataType := "float"
      description := "The weight of an object"
      unit := some "kilograms"
      domain := ["Object"] },
    { name := "color"
      dataType := "string"
      description := "The color of an object"
      domain := ["Object"] },
    { name := "material"
      dataType := "string"
      description := "The material an object is made of"
      domain := ["Object"] },
    { name := "status"
      dataType := "string"
      description := "The current status or state of an entity"
      allowedValues := some ["active", "inactive", "pending", "completed", "cancelled"] },
    { name := "type", dataType := "string", description := "The type or category of an entity" },
    { name := "category"
      dataType := "string"
      description := "A category or classification of an entity" },
    { name := "tag"
      dataType := "string"
      description := "A tag or label associated with an entity" },
    { name := "language"
      dataType := "string"
      description := "The language of a document or communication"
      domain := ["Document"] },
    { name := "format"
      dataType := "string"
      description := "The format of a document or file"
      domain := ["Document"] },
    { name := "size"
      dataType := "number"
      description := "The size of a file or document in bytes"
      unit := some "bytes"
      domain := ["Document"] },
    { name := "version", dataType := "string", description := "The version number of an entity" },
    { name := "author"
      dataType := "string"
      description := "The author or creator of a document or work"
      domain := ["Document"] },
    { name := "publisher"
      dataType := "string"
      description := "The publisher of a document or work"
      domain := ["Document"] },
    { name := "isbn"
      dataType := "string"
      description := "International Standard Book Number"
      domain := ["Document"] },
    { name := "issn"
      dataType := "string"
      description := "International Standard Serial Number"
      domain := ["Document"] },
    { name := "price"
      dataType := "float"
      description := "The price or cost of an item"
      unit := some "currency"
      domain := ["Object"] },
    { name := "currency"
      dataType := "string"
      description := "The currency used for a price or monetary value"
      allowedValues := some ["USD", "EUR", "GBP", "JPY", "CNY", "INR"] },
    { name := "balance"
      dataType := "float"
      description := "The opening balance of an account"
      unit := some "currency"
      domain := accountRoles },
    { name := "rating", dataType := "float", description := "A numerical rating or score" },
    { name := "score", dataType := "float", description := "A numerical score or grade" },
    { name := "count", dataType := "number", description := "A count or quantity of items" },
    { name := "percentage"
      dataType := "float"
      description := "A percentage value"
      unit := some "percent" },
    { name := "frequency"
      dataType := "float"
      description := "The frequency of occurrence or repetition"
      unit := some "hertz (Hz)" },
    { name := "duration"
      dataType := "float"
      description := "The duration or length of time"
      unit := some "seconds"
      domain := ["Event"] },
    { name := "distance"
      dataType := "float"
      description := "The distance between two points"
      unit := some "meters" },
    { name := "volume"
      dataType := "float"
      description := "The volume of an object or container"
      unit := some "cubic meters"
      domain := ["Object"] },
    { name := "density"
      dataType := "float"
      description := "The density of a material"
      unit := some "kg/m^3"
      domain := ["Object"] },
    { name := "number of protons"
      dataType := "string"
      description := "Attribute type used in the graph" },
    { name := "number of neutrons"
      dataType := "string"
      description := "Attribute type used in the graph" },
    { name := "number of electrons"
      dataType := "string"
      description := "Attribute type used in the graph" },
    { name := "position"
      dataType := "complex"
      description := "A 3D position coordinates as a single data type."
      unit := some "meters (m)"
      domain := ["Object", "Particle", "Vehicle"]
      complexType := some "position"
      parts := some [
        ("x", ⟨"float", some "meters (m)", "X-coordinate"⟩),
        ("y", ⟨"float", some "meters (m)", "Y-coordinate"⟩),
        ("z", ⟨"float", some "meters (m)", "Z-coordinate"⟩)] },
    { name := "time"
      dataType := "complex"
      description := "Time as a complex data type. Example: time: (5.0, \"seconds\")"
      unit := some "seconds (s)"
      domain := ["Object", "Particle", "Vehicle"]
      complexType := some "time"
      parts := some [
        ("value", ⟨"float", some "seconds (s)", "Time value"⟩),
        ("unit", ⟨"string", none, "Time unit (seconds, minutes, hours)"⟩)] },
    { name := "gps"
      dataType := "complex"
      description := "GPS coordinates as a complex data type."
      unit := some "degrees, meters"
      domain := ["Vehicle", "Drone", "Satellite"]
      complexType := some "gps"
      parts := some [
        ("lat", ⟨"float", some "degrees", "Latitude coordinate"⟩),
        ("long", ⟨"float", some "degrees", "Longitude coordinate"⟩),
        ("alt", ⟨"float", some "meters (m)", "Altitude above sea level"⟩),
        ("timestamp", ⟨"datetime", none, "GPS timestamp"⟩)] }]

/-- The built-in types of transitions. -/
def defaultTransitionTypes : List TransitionType := [
    { name := "transform"
      description := "Transform one entity into another"
      inputs := ["individual"]
      outputs := ["individual"] },
    { name := "create", description := "Create a new entity", outputs := ["individual"] }]

/-- The attributes that give a position. -/
def position : List String :=
  ["position x", "position y", "position z"]

/-- The attributes that give the position before. -/
def previousPosition : List String :=
  ["previous position x", "previous position y", "previous position z"]

/-- The attributes that give the first position. -/
def initialPosition : List String :=
  ["initial position x", "initial position y", "initial position z"]

/-- What the functions of motion apply to. -/
def motionScope : List String :=
  ["Object", "Particle", "Vehicle", "class"]

/-- The built-in types of functions. -/
def defaultFunctionTypes : List FunctionType := [
    { name := "atomicMass"
      expression :=
        "\"number of protons\" + \"number of neutrons\""
      scope := ["Element", "class"] },
    { name := "distance"
      expression :=
        "let $x_1$ be \"position x\"; let $y_1$ be \"position y\"; let $z_1$ be \"position " ++
        "z\"; let $x_2$ be \"previous position x\"; let $y_2$ be \"previous position y\"; " ++
        "let $z_2$ be \"previous position z\"; let delta_x be $x_1$ - $x_2$; let delta_y be " ++
        "$y_1$ - $y_2$; let delta_z be $z_1$ - $z_2$; sqrt(power(delta_x, 2) + " ++
        "power(delta_y, 2) + power(delta_z, 2))"
      scope := motionScope
      description := some
        ("Calculates Euclidean distance between two 3D positions using vector notation")
      requiredAttributes := position ++ previousPosition },
    { name := "displacement"
      expression :=
        "let $x$ be \"position x\"; let $y$ be \"position y\"; let $z$ be \"position z\"; " ++
        "let $x_0$ be \"initial position x\"; let $y_0$ be \"initial position y\"; let " ++
        "$z_0$ be \"initial position z\"; let delta_x be $x$ - $x_0$; let delta_y be $y$ - " ++
        "$y_0$; let delta_z be $z$ - $z_0$; sqrt(power(delta_x, 2) + power(delta_y, 2) + " ++
        "power(delta_z, 2))"
      scope := motionScope
      description := some
        ("Calculates displacement from initial position to current position using vector " ++
        "notation")
      requiredAttributes := position ++ initialPosition },
    { name := "speed"
      expression :=
        "let $x_1$ be \"position x\"; let $y_1$ be \"position y\"; let $z_1$ be \"position " ++
        "z\"; let $x_2$ be \"previous position x\"; let $y_2$ be \"previous position y\"; " ++
        "let $z_2$ be \"previous position z\"; let $t_1$ be \"time\"; let $t_2$ be " ++
        "\"previous time\"; let distance be sqrt(power($x_1$ - $x_2$, 2) + power($y_1$ - " ++
        "$y_2$, 2) + power($z_1$ - $z_2$, 2)); let delta_t be $t_1$ - $t_2$; distance / " ++
        "delta_t"
      scope := motionScope
      description := some
        ("Calculates speed (distance traveled over time) using intermediate variables")
      requiredAttributes := position ++ previousPosition ++ ["time", "previous time"] },
    { name := "velocity_magnitude"
      expression :=
        "let $x$ be \"position x\"; let $y$ be \"position y\"; let $z$ be \"position z\"; " ++
        "let $x_0$ be \"initial position x\"; let $y_0$ be \"initial position y\"; let " ++
        "$z_0$ be \"initial position z\"; let $t_1$ be \"time\"; let $t_2$ be \"previous " ++
        "time\"; let displacement be sqrt(power($x$ - $x_0$, 2) + power($y$ - $y_0$, 2) + " ++
        "power($z$ - $z_0$, 2)); let delta_t be $t_1$ - $t_2$; displacement / delta_t"
      scope := motionScope
      description := some
        ("Calculates velocity magnitude (displacement over time) using intermediate variables")
      requiredAttributes := position ++ initialPosition ++ ["time", "previous time"] },
    { name := "acceleration"
      expression :=
        "let $t_1$ be \"time\"; let $t_2$ be \"previous time\"; let $t_3$ be \"previous " ++
        "previous time\"; let velocity_1 be distance(position, previous position) / ($t_1$ " ++
        "- $t_2$); let velocity_2 be distance(previous position, previous previous " ++
        "position) / ($t_2$ - $t_3$); (velocity_1 - velocity_2) / ($t_1$ - $t_2$)"
      scope := motionScope
      description := some
        ("Calculates acceleration (change in velocity over time) using intermediate variables")
      requiredAttributes := position ++ previousPosition ++ [
        "previous previous position x", "previous previous position y",
        "previous previous position z", "time", "previous time", "previous previous time"] }]

/-- The catalog of the built-in vocabulary. -/
def Catalog.default : Catalog :=
  { nodeTypes := defaultNodeTypes
    relationTypes := defaultRelationTypes
    attributeTypes := defaultAttributeTypes
    transitionTypes := defaultTransitionTypes
    functionTypes := defaultFunctionTypes }

end NoteGraph.Schema
